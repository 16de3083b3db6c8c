import Mathlib.Tactic.Common
import SchemaAccessors.Config
import SchemaAccessors.Proofs.Outcome

/-!
# Keys that are no options

The keys of a configuration stand at three levels: at the top, and in the groups for the formatter and for the output.
Each level has its own way with a key that is no option. Output options are looked up by name, so other keys are never
seen. At the top a key is passed over unless the configuration has a member of its name, and it has four that are no
options and show if they are replaced. Formatter options are taken as they come, so any other key is refused. This file
says for which keys another one makes no difference, whatever the rest of the configuration is.
-/

namespace SchemaAccessors

/-! ## Keys at the three levels -/

namespace Config

inductive Level
  | top
  | formatter
  | output
deriving DecidableEq

/-- The keys that are options. -/
def Level.options : Level → List String
  | top => ["language", "java_package", "add_generation_comment", "include_schema_json_in_docs",
      "strict_schema_shapes", "max_name_attempts", "formatter", "output"]
  | formatter => ["enabled", "line_length", "target_version", "string_normalization", "magic_trailing_comma"]
  | output => ["mode", "validate_before_write"]

/-- The members of a configuration that are no options, and whose replacement shows. -/
def members : List String := ["to_dict", "__dict__", "__class__", "__weakref__"]

/-- Whether a key that is no option is passed over. -/
def Level.overlooks : Level → String → Bool
  | top, key => key ∉ members
  | formatter, _ => false
  | output, _ => true

/-- An object has one more member than another, anywhere at a level. -/
inductive Adds (key : String) (value : Json) : Level → Members → Members → Prop
  | top (before behind : Members) : Adds key value .top (before ++ behind) (before ++ (key, value) :: behind)
  | formatter (before behind first rest : Members) :
      Adds key value .formatter (before ++ ("formatter", .obj (first ++ rest)) :: behind)
        (before ++ ("formatter", .obj (first ++ (key, value) :: rest)) :: behind)
  | output (before behind first rest : Members) :
      Adds key value .output (before ++ ("output", .obj (first ++ rest)) :: behind)
        (before ++ ("output", .obj (first ++ (key, value) :: rest)) :: behind)

/-! ## Single keys -/

variable {key : String} {value : Json}

lemma set_of_notMem (c : Config) (hoption : key ∉ Level.top.options) (hmember : key ∉ members) (value : Json) :
    c.set key value = .ok c := by
  simp only [Level.options, members, List.mem_cons, List.not_mem_nil, or_false, not_or] at hoption hmember
  unfold set
  split <;> simp_all

lemma setFormatter_of_notMem (o : FormatterOptions) (hoption : key ∉ Level.formatter.options) (value : Json) :
    setFormatter o key value = .error .wrongKind := by
  simp only [Level.options, List.mem_cons, List.not_mem_nil, or_false, not_or] at hoption
  unfold setFormatter
  split <;> simp_all

end Config

/-- A member changes nothing about the value of another key. -/
lemma Members.get?_insert {key other : String} (h : other ≠ key) (value : Json) (first rest : Members) :
    Members.get? (first ++ (key, value) :: rest) other = Members.get? (first ++ rest) other := by
  have hother : (other == key) = false := beq_false_of_ne h
  simp [Members.get?, List.lookup_append, List.lookup_cons, hother]

namespace Config

variable {key : String} {value : Json}

lemma readOutput_insert (hoption : key ∉ Level.output.options) (first rest : Members) :
    readOutput (first ++ (key, value) :: rest) = readOutput (first ++ rest) := by
  simp only [Level.options, List.mem_cons, List.not_mem_nil, or_false, not_or] at hoption
  unfold readOutput
  rw [Members.get?_insert (Ne.symm hoption.1), Members.get?_insert (Ne.symm hoption.2)]

lemma readFormatter_insert {first rest : Members} {o : FormatterOptions} (hoption : key ∉ Level.formatter.options)
    (h : readFormatter (first ++ rest) = .ok o) :
    readFormatter (first ++ (key, value) :: rest) = .error .wrongKind := by
  unfold readFormatter at h ⊢
  rw [List.foldlM_append] at h ⊢
  obtain ⟨o', hfirst, -⟩ := bind_eq_ok.1 h
  have hrefused (o : FormatterOptions) : setFormatter o key value = .error .wrongKind :=
    setFormatter_of_notMem o hoption value
  simp only [hfirst, List.foldlM_cons, hrefused]
  rfl

/-! ## Whole configurations -/

lemma ofJson_append (first rest : Members) :
    ofJson (.obj (first ++ rest)) =
      ofJson (.obj first) >>= fun c => rest.foldlM (fun c m => c.set m.1 m.2) c :=
  List.foldlM_append

/-- What is made of a member in its place decides what is made of the object. -/
lemma ofJson_insert_of_set_eq {before behind : Members} {name : String} {old new : Json}
    (h : ∀ c : Config, c.set name new = c.set name old) :
    ofJson (.obj (before ++ (name, new) :: behind)) = ofJson (.obj (before ++ (name, old) :: behind)) := by
  simp only [ofJson_append, List.foldlM_cons, h]

/-- A key that is passed over makes no difference. -/
lemma ofJson_of_overlooks {level : Level} {ms ms' : Members} {c : Config} (hoption : key ∉ level.options)
    (hlevel : level.overlooks key = true) (hadds : Adds key value level ms ms') (hok : ofJson (.obj ms) = .ok c) :
    ofJson (.obj ms') = .ok c := by
  cases hadds with
  | top before behind =>
    have hmember : key ∉ members := by simpa [Level.overlooks] using hlevel
    rw [ofJson_append] at hok ⊢
    obtain ⟨c', hbefore, hbehind⟩ := bind_eq_ok.1 hok
    refine bind_eq_ok.2 ⟨c', hbefore, ?_⟩
    rw [List.foldlM_cons, set_of_notMem c' hoption hmember]
    exact hbehind
  | formatter => cases hlevel
  | output before behind first rest =>
    rw [← hok]
    refine ofJson_insert_of_set_eq fun c => ?_
    simp only [set, readOutput_insert hoption]

/-- A key among the options for the formatter is refused. -/
lemma ofJson_of_adds_formatter {ms ms' : Members} {c : Config} (hoption : key ∉ Level.formatter.options)
    (hadds : Adds key value .formatter ms ms') (hok : ofJson (.obj ms) = .ok c) :
    ofJson (.obj ms') = .error .wrongKind := by
  cases hadds with
  | formatter before behind first rest =>
    rw [ofJson_append] at hok ⊢
    obtain ⟨c', hbefore, hbehind⟩ := bind_eq_ok.1 hok
    obtain ⟨c'', hset, -⟩ := bind_eq_ok.1 hbehind
    obtain ⟨o, hread, -⟩ := bind_eq_ok.1 hset
    rw [hbefore]
    simp only [List.foldlM_cons, set, readFormatter_insert hoption hread]
    rfl

/-- Each of the members shows that it is replaced, or cannot be, where an empty object takes its place. -/
lemma exists_spoiled (hmember : key ∈ members) :
    ∃ value, ∀ c', ofJson (.obj [(key, value)]) = .ok c' → c'.toJson ≠ ({} : Config).toJson := by
  simp only [members, List.mem_cons, List.not_mem_nil, or_false] at hmember
  refine ⟨.obj [], fun c' hok => ?_⟩
  rcases hmember with rfl | rfl | rfl | rfl
  · obtain rfl : ({ unwritable := true } : Config) = c' := Except.ok.inj hok
    exact nofun
  · obtain rfl : ofOwnMembers [] = c' := Except.ok.inj hok
    exact nofun
  · cases hok
  · cases hok

/-- A key that is no option makes no difference, at any place of any configuration, if its level passes it over; and if
not, then it spoils some configuration. A group for the formatter that holds such a key is never read. -/
theorem ofJson_of_adds {level : Level} (hoption : key ∉ level.options) :
    (level.overlooks key = true → ∀ value ms ms' c, Adds key value level ms ms' → ofJson (.obj ms) = .ok c →
      ofJson (.obj ms') = .ok c) ∧
    (level = .formatter → ∀ value ms ms' c, Adds key value level ms ms' → ofJson (.obj ms) = .ok c →
      ofJson (.obj ms') = .error .wrongKind) ∧
    (level.overlooks key = false → ∃ value ms ms' c, Adds key value level ms ms' ∧ ofJson (.obj ms) = .ok c ∧
      ∀ c', ofJson (.obj ms') = .ok c' → c'.toJson ≠ c.toJson) := by
  refine ⟨fun hlevel value ms ms' c hadds hok => ofJson_of_overlooks hoption hlevel hadds hok, ?_, fun hlevel => ?_⟩
  · rintro rfl value ms ms' c hadds hok
    exact ofJson_of_adds_formatter hoption hadds hok
  cases level with
  | top =>
    have hmember : key ∈ members := by simpa [Level.overlooks] using hlevel
    obtain ⟨value, hvalue⟩ := exists_spoiled hmember
    exact ⟨value, [], _, {}, .top [] [], rfl, hvalue⟩
  | formatter =>
    have hadds : Adds key .null .formatter [("formatter", .obj [])] [("formatter", .obj [(key, .null)])] :=
      .formatter [] [] [] []
    refine ⟨.null, _, _, {}, hadds, rfl, fun c' hok => ?_⟩
    rw [ofJson_of_adds_formatter hoption hadds rfl] at hok
    cases hok
  | output => cases hlevel

/-- A misspelled option between two others makes no difference. -/
theorem ofJson_of_adds_misspelled :
    "java_pakage" ∉ Level.top.options ∧ Level.top.overlooks "java_pakage" = true ∧
      ∃ c, ofJson (.obj [("language", .str "java"), ("output", .obj [("mode", .str "force")])]) = .ok c ∧
        ofJson (.obj [("language", .str "java"), ("java_pakage", .str "a.b"),
          ("output", .obj [("mode", .str "force")])]) = .ok c := by
  have hoption : "java_pakage" ∉ Level.top.options := by decide
  have hlevel : Level.top.overlooks "java_pakage" = true := by decide
  have hread : ofJson (.obj [("language", .str "java"), ("output", .obj [("mode", .str "force")])]) = .ok _ := rfl
  have hadds : Adds "java_pakage" (.str "a.b") .top
      [("language", .str "java"), ("output", .obj [("mode", .str "force")])] _ :=
    .top [("language", .str "java")] [("output", .obj [("mode", .str "force")])]
  exact ⟨hoption, hlevel, _, hread, (ofJson_of_adds hoption).1 hlevel _ _ _ _ hadds hread⟩

/-- A group for the formatter without options is read, and refused as soon as it holds a key that is no option. -/
theorem refused_for_unknown_option :
    "quote_style" ∉ Level.formatter.options ∧
      Adds "quote_style" (.str "single") .formatter [("formatter", .obj [])]
        [("formatter", .obj [("quote_style", .str "single")])] ∧
      ofJson (.obj [("formatter", .obj [])]) = .ok {} ∧
      ofJson (.obj [("formatter", .obj [("quote_style", .str "single")])]) = .error .wrongKind :=
  ⟨by decide, .formatter [] [] [] [], rfl, rfl⟩

end Config

end SchemaAccessors
