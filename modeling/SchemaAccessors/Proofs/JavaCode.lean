import SchemaAccessors.Proofs.Braces

/-!
# Java code and its check

The check of a Java file asks for the word `class` and for as many closing braces as opening ones. Fields and
constructors close what they open, whatever they are nested in, and names have no braces at all. So the braces of a
file come to those of the documentation and of the methods of its types (`typeSurplus`), and a file passes its check
if these come to none, and only then. They come to none if the documentation, the keys and the defaults balance.
-/

namespace SchemaAccessors

open Text (surplus surplus_append)

/-- What is asked of a type for the braces of its code to be those of its documentation and of its methods: names of
letters and digits, and no brace that opens at the end of the documentation, which would be lost. -/
structure WrapperType.Ended (t : WrapperType) : Prop where
  plain : t.Plain
  closed : t.doc.toList.getLast? ≠ some '\x7b'

/-- What is asked of the names and texts of a type for its code to close its braces. -/
structure WrapperType.Balanced (t : WrapperType) : Prop extends t.Ended where
  doc : surplus t.doc.toList = 0
  copied : ∀ text ∈ t.copied, surplus text.toList = 0

/-! ## Lines of code -/

/-- By how many braces some lines open more than they close. -/
def Render.surplus (lines : List String) : Int :=
  (lines.map fun line => Text.surplus line.toList).sum

namespace Render

@[simp] lemma surplus_nil : Render.surplus [] = 0 := rfl

@[simp] lemma surplus_cons (line : String) (lines : List String) :
    Render.surplus (line :: lines) = Text.surplus line.toList + Render.surplus lines := rfl

@[simp] lemma surplus_append (a b : List String) :
    Render.surplus (a ++ b) = Render.surplus a + Render.surplus b := by
  simp [Render.surplus]

lemma surplus_eq_zero {lines : List String} (h : ∀ line ∈ lines, Text.surplus line.toList = 0) :
    Render.surplus lines = 0 := by
  induction lines with
  | nil => rfl
  | cons line lines ih =>
    obtain ⟨hline, hlines⟩ := List.forall_mem_cons.1 h
    rw [surplus_cons, hline, ih hlines, add_zero]

/-- Indenting adds blanks and empties lines that show nothing. -/
lemma surplus_indent (lines : List String) : Render.surplus (indent lines) = Render.surplus lines := by
  have hline (line : String) : Text.surplus (indentLine line).toList = Text.surplus line.toList := by
    unfold indentLine
    split
    · next hblank =>
      have hnone : Text.surplus line.toList = 0 := by
        refine Text.surplus_eq_zero fun c hc => ⟨?_, ?_⟩ <;>
        · rintro rfl
          have hisBlank := List.all_eq_true.1 (by simpa [Text.isBlankLine] using hblank) _ hc
          exact absurd hisBlank (by decide)
      rw [hnone]
      rfl
    · have hunit : Text.surplus indentUnit.toList = 0 := by decide
      rw [String.toList_append, Text.surplus_append, hunit, zero_add]
  induction lines with
  | nil => rfl
  | cons line lines ih =>
    show Render.surplus (indentLine line :: indent lines) = _
    rw [surplus_cons, surplus_cons, hline, ih]

lemma surplus_dropEmptyEnd (lines : List String) : Render.surplus (dropEmptyEnd lines) = Render.surplus lines := by
  have hreverse (lines : List String) : Render.surplus lines.reverse = Render.surplus lines := by
    simp [Render.surplus]
  have hdrop (lines : List String) : Render.surplus (lines.dropWhile (·.isEmpty)) = Render.surplus lines := by
    induction lines with
    | nil => rfl
    | cons line lines ih =>
      rw [List.dropWhile_cons]
      split
      · next hempty =>
        rw [ih, surplus_cons, String.isEmpty_iff.1 hempty]
        simp [Text.surplus]
      · rfl
  rw [dropEmptyEnd, hreverse, hdrop, hreverse]

lemma surplus_spaced (blocks : List (List String)) :
    Render.surplus (spaced blocks) = (blocks.map Render.surplus).sum := by
  induction blocks with
  | nil => rfl
  | cons block blocks ih =>
    have hempty : Render.surplus [""] = 0 := rfl
    show Render.surplus (block ++ [""] ++ spaced blocks) = _
    rw [surplus_append, surplus_append, ih, hempty, add_zero, List.map_cons, List.sum_cons]

lemma surplus_unlines (lines : List String) : Text.surplus (unlines lines).toList = Render.surplus lines :=
  Text.surplus_intercalate (by decide) lines

lemma surplus_lines (text : String) : Render.surplus (Text.lines text) = Text.surplus text.toList := by
  have hsum : Render.surplus (Text.lines text) = ((Text.linesFrom [] text.toList).map Text.surplus).sum := by
    simp [Render.surplus, Text.lines, Function.comp_def]
  have hnil : Text.surplus [] = 0 := rfl
  rw [hsum, Text.surplus_linesFrom, hnil, zero_add]

end Render

namespace Render.Java

/-! ## Comments -/

lemma surplus_escapeDoc (text : List Char) : Text.surplus (escapeDoc text) = Text.surplus text := by
  have hescapes : Text.surplus "&amp;".toList = Text.surplus ['&'] ∧ Text.surplus "&lt;".toList = Text.surplus ['<'] ∧
      Text.surplus "&gt;".toList = Text.surplus ['>'] ∧ Text.surplus "*&#47;".toList = Text.surplus ['*', '/'] := by
    decide
  obtain ⟨hand, hless, hgreater, hstar⟩ := hescapes
  fun_induction escapeDoc text with
  | case1 rest ih => rw [Text.surplus_append, hand, ih, Text.surplus_cons '&' rest]
  | case2 rest ih => rw [Text.surplus_append, hless, ih, Text.surplus_cons '<' rest]
  | case3 rest ih => rw [Text.surplus_append, hgreater, ih, Text.surplus_cons '>' rest]
  | case4 rest ih =>
    rw [Text.surplus_append, hstar, ih]
    exact (Text.surplus_append ['*', '/'] rest).symm
  | case5 c rest _ _ _ _ ih => rw [Text.surplus_cons, ih, ← Text.surplus_cons]
  | case6 => rfl

lemma surplus_docLines (lines : List String) : Render.surplus (lines.map docLine) = Render.surplus lines := by
  have hmark : Text.surplus " * ".toList = 0 := by decide
  induction lines with
  | nil => rfl
  | cons line lines ih =>
    have hline : Text.surplus (docLine line).toList = Text.surplus line.toList := by
      rw [docLine, Text.surplus_trimRight, String.toList_append, Text.surplus_append, hmark, zero_add,
        String.toList_ofList, surplus_escapeDoc]
    rw [List.map_cons, surplus_cons, surplus_cons, ih, hline]

/-- The schema that is cut off is the end of the text, from an opening brace on. -/
lemma cutSchema_spec (text : List Char) :
    Text.surplus (cutSchema text).1 + Text.surplus (cutSchema text).2 = Text.surplus text ∧
      (cutSchema text).2 <:+ text ∧ ((cutSchema text).2 = [] ∨ ∃ rest, (cutSchema text).2 = '\x7b' :: rest) := by
  fun_induction cutSchema text with
  | case1 rest =>
    refine ⟨?_, List.suffix_cons _ _, .inr ⟨rest, rfl⟩⟩
    rw [Text.surplus_cons '\n']
    rfl
  | case2 c rest _ before schema hcut ih =>
    rw [hcut] at ih
    refine ⟨?_, ih.2.1.trans (List.suffix_cons _ _), ih.2.2⟩
    rw [Text.surplus_cons c before, Text.surplus_cons c rest, ← ih.1, add_assoc]
  | case3 => exact ⟨rfl, List.suffix_refl _, .inl rfl⟩

/-- A documentation comment has the braces of the documentation, unless that ends with an opening brace. -/
lemma surplus_docComment {doc : String} (h : doc.toList.getLast? ≠ some '\x7b') :
    Render.surplus (docComment doc) = Text.surplus doc.toList := by
  obtain ⟨hparts, hsuffix, hfirst⟩ := cutSchema_spec doc.toList
  have hschema : (cutSchema doc.toList).2.length ≤ 1 → (cutSchema doc.toList).2 = [] := by
    intro hshort
    refine hfirst.elim id fun ⟨rest, hrest⟩ => ?_
    obtain rfl : rest = [] := by
      rw [hrest] at hshort
      simpa using hshort
    obtain ⟨before, hdoc⟩ := hsuffix
    rw [← hdoc, hrest] at h
    simp at h
  have hopening : Text.surplus "/**".toList = 0 := by decide
  have hclosing : Text.surplus " */".toList = 0 := by decide
  have hpre : Text.surplus " * <pre>".toList = 0 := by decide
  have hpost : Text.surplus " * </pre>".toList = 0 := by decide
  have htext (text : List Char) :
      Render.surplus ((Text.lines (String.ofList text)).map docLine) = Text.surplus text := by
    rw [surplus_docLines, surplus_lines, String.toList_ofList]
  rw [← hparts]
  unfold docComment
  dsimp only
  split
  · next hshort =>
    have hnone : Text.surplus [] = 0 := rfl
    simp only [surplus_append, surplus_cons, surplus_nil, htext, hopening, hclosing, hschema hshort, hnone]
    omega
  · simp only [surplus_append, surplus_cons, surplus_nil, htext, hopening, hclosing, hpre, hpost]
    omega

/-! ## Expressions -/

/-- What holds of the characters of numbers and of an underscore, which is in the names of constants, holds of those
of a double-precision number. -/
lemma forall_mem_double {P : Char → Prop} (hnumeral : ∀ c, Text.IsNumeral c → P c) (hmark : P '_') (x : Binary64) :
    ∀ c ∈ (double x).toList, P c := by
  have hchar : ∀ c ∈ (double x).toList, Text.IsNumeral c ∨ c = '_' := by
    unfold double
    split
    · decide
    · decide
    · decide
    · exact fun c hc => .inl (x.isNumeral_plain c hc)
  intro c hc
  rcases hchar c hc with hc | rfl
  · exact hnumeral c hc
  · exact hmark

lemma surplus_double (x : Binary64) : Text.surplus (double x).toList = 0 := by
  refine Text.surplus_eq_zero (forall_mem_double (fun c hc => ?_) (by decide) x)
  constructor <;>
  · rintro rfl
    exact absurd hc (by decide)

/-- The forms that a default is written in for a lookup of some kind. -/
inductive Form (kind : RawKind) : Json → String → Prop
  | bool (b : Bool) : Form kind (.bool b) (if b then "true" else "false")
  | int {n : Int} (fits : isInt n = true) : Form kind (.int n) (toString n)
  | long {n : Int} (other : kind ≠ .integer) (wide : isInt n = false) (fits : isLong n = true) :
      Form kind (.int n) s!"{n}L"
  | nearest {n : Int} {x : Binary64} (other : kind ≠ .integer) (wide : isInt n = false) (wider : isLong n = false)
      (h : nearest n = .ok x) : Form kind (.int n) (double x)
  | convertedNearest {n : Int} {x : Binary64} (same : kind = .integer) (wide : isInt n = false)
      (h : nearest n = .ok x) : Form kind (.int n) ("(int) " ++ double x)
  | double {x : Binary64} (other : kind ≠ .integer) : Form kind (.float x) (double x)
  | whole {x : Binary64} {n : Int} (same : kind = .integer) (value : x.toInt? = some n) (fits : isInt n = true) :
      Form kind (.float x) (toString n)
  | converted {x : Binary64} (same : kind = .integer) : Form kind (.float x) ("(int) " ++ double x)
  | str (s : String) : Form kind (.str s) (Json.str s).compact
  | null : Form kind .null Json.null.compact
  | arr (xs : List Json) : Form kind (.arr xs) (Json.arr xs).compact
  | obj (ms : Members) : Form kind (.obj ms) (Json.obj ms).compact

lemma form_of_literalFor {kind : RawKind} {value : Json} {text : String} (h : literalFor kind value = .ok text) :
    Form kind value text := by
  unfold literalFor at h
  split at h
  · split at h
    · next fits =>
      rw [← Except.ok.inj h]
      exact .int fits
    · next wide =>
      obtain ⟨x, hx, hlast⟩ := bind_eq_ok.1 h
      rw [← Except.ok.inj hlast]
      exact .convertedNearest rfl (Bool.eq_false_iff.2 wide) hx
  · split at h
    · next n value =>
      rw [← Except.ok.inj h]
      split
      · next fits => exact .whole rfl value fits
      · exact .converted rfl
    · rw [← Except.ok.inj h]
      exact .converted rfl
  · next hint hfloat =>
    cases value with
    | int n =>
      have other : kind ≠ .integer := fun same => hint n same rfl
      rw [literal] at h
      split at h
      · next fits =>
        rw [← Except.ok.inj h]
        exact .int fits
      · next wide =>
        split at h
        · next fits =>
          rw [← Except.ok.inj h]
          exact .long other (Bool.eq_false_iff.2 wide) fits
        · next wider =>
          obtain ⟨x, hx, hlast⟩ := bind_eq_ok.1 h
          rw [← Except.ok.inj hlast]
          exact .nearest other (Bool.eq_false_iff.2 wide) (Bool.eq_false_iff.2 wider) hx
    | float x =>
      rw [← Except.ok.inj h]
      exact .double fun same => hfloat x same rfl
    | bool b =>
      rw [← Except.ok.inj h]
      exact .bool b
    | str s =>
      rw [← Except.ok.inj h]
      exact .str s
    | null =>
      rw [← Except.ok.inj h]
      exact .null
    | arr xs =>
      rw [← Except.ok.inj h]
      exact .arr xs
    | obj ms =>
      rw [← Except.ok.inj h]
      exact .obj ms

/-- A default that nothing looks up is written as for a lookup of any value. -/
lemma form_of_literal {value : Json} {text : String} (h : literal value = .ok text) : Form .any value text :=
  form_of_literalFor h

lemma Form.surplus {kind : RawKind} {value : Json} {text : String} (h : Form kind value text)
    (hvalue : ∀ part ∈ value.texts, Text.surplus part.toList = 0) : Text.surplus text.toList = 0 := by
  have hcompact := value.surplus_compact hvalue
  have hnumber (n : Int) : Text.surplus (toString n).toList = 0 := Text.surplus_numeral (isNumeral_int n)
  have hconverted (x : Binary64) : Text.surplus ("(int) " ++ Java.double x).toList = 0 := by
    have hmark : Text.surplus "(int) ".toList = 0 := by decide
    rw [String.toList_append, Text.surplus_append, hmark, surplus_double, add_zero]
  cases h with
  | bool b => exact Json.surplus_bool b
  | int fits => exact hnumber _
  | @long n other wide fits =>
    have hmark : Text.surplus "L".toList = 0 := by decide
    have htext : (s!"{n}L").toList = (toString n).toList ++ "L".toList := String.toList_append
    rw [htext, Text.surplus_append, hnumber, hmark, add_zero]
  | nearest other wide wider hx => exact surplus_double _
  | convertedNearest same wide hx => exact hconverted _
  | double other => exact surplus_double _
  | whole same value fits => exact hnumber _
  | converted same => exact hconverted _
  | str s => exact hcompact
  | null => exact hcompact
  | arr xs => exact hcompact
  | obj ms => exact hcompact

lemma surplus_rawType (kind : RawKind) : Text.surplus (rawType kind).toList = 0 := by
  cases kind <;> decide

lemma surplus_castField {f : Field} (h : Text.surplus f.name.toList = 0) (kind : RawKind) :
    Text.surplus (castField f kind).toList = 0 := by
  unfold castField
  split
  · exact h
  · simp only [toString, String.toList_append, Text.surplus_append, surplus_rawType, h]
    decide

lemma surplus_lookup {target key : String} {kind : RawKind} {default? : Option Json} {text : String}
    (h : lookup target key kind default? = .ok text) (htarget : Text.surplus target.toList = 0)
    (hkey : Text.surplus key.toList = 0)
    (hdefault : ∀ part ∈ default?.elim [] Json.texts, Text.surplus part.toList = 0) :
    Text.surplus text.toList = 0 := by
  have hname : ∀ name, lookupKind kind = some name → Text.surplus name.toList = 0 := by
    intro name hname
    cases kind <;> simp only [lookupKind, Option.some.injEq, reduceCtorEq] at hname <;> subst hname <;> decide
  unfold lookup at h
  split at h
  · have hend : Text.surplus ((lookupKind kind).getD "").toList = 0 := by
      cases hk : lookupKind kind with
      | none => decide
      | some name => exact hname name hk
    rw [← Except.ok.inj h]
    simp only [toString, String.toList_append, Text.surplus_append, htarget, hkey, hend]
    decide
  · next value =>
    obtain ⟨default, hliteral, hrest⟩ := bind_eq_ok.1 h
    have hvalue := (form_of_literalFor hliteral).surplus hdefault
    split at hrest
    · rw [← Except.ok.inj hrest]
      simp only [toString, String.toList_append, Text.surplus_append, htarget, hkey, hvalue]
      decide
    · next name hk =>
      rw [← Except.ok.inj hrest]
      simp only [toString, String.toList_append, Text.surplus_append, htarget, hkey, hvalue, hname name hk]
      decide

/-! ## Classes -/

section Classes

variable {m : Model} (hnames : ∀ id, Text.surplus (typeName m id).toList = 0)

include hnames

lemma surplus_typeText (r : TypeRef) : Text.surplus (typeText m r).toList = 0 := by
  unfold typeText
  split
  · exact hnames _
  · exact surplus_rawType _

lemma surplus_expr {e : Expr} {text : String} (h : expr m e = .ok text)
    (hplain : ∀ name ∈ e.names, ∀ c ∈ name.toList, c.isAlphanum = true)
    (hcopied : ∀ part ∈ e.copied, Text.surplus part.toList = 0) : Text.surplus text.toList = 0 := by
  induction e generalizing text with
  | field f =>
    rw [← Except.ok.inj h]
    exact Text.surplus_alphanum (hplain _ List.mem_cons_self)
  | literal value => exact (form_of_literal h).surplus hcopied
  | property f key kind default? =>
    have hfield := Text.surplus_alphanum (hplain _ List.mem_cons_self)
    obtain ⟨hkey, hdefault⟩ := List.forall_mem_cons.1 hcopied
    exact surplus_lookup h (surplus_castField hfield _) ((Json.surplus_encodeString key).trans hkey) hdefault
  | item f index kind default? =>
    have hfield := Text.surplus_alphanum (hplain _ List.mem_cons_self)
    have hindex := Text.surplus_alphanum (hplain _ (List.mem_cons_of_mem _ List.mem_cons_self))
    exact surplus_lookup h (surplus_castField hfield _) hindex hcopied
  | presence f key =>
    have hfield := surplus_castField (Text.surplus_alphanum (hplain _ List.mem_cons_self)) .object
    have hkey := (Json.surplus_encodeString key).trans (hcopied _ List.mem_cons_self)
    rw [← Except.ok.inj h]
    simp only [toString, String.toList_append, Text.surplus_append, hfield, hkey]
    decide
  | length f =>
    have hfield := surplus_castField (Text.surplus_alphanum (hplain _ List.mem_cons_self)) .array
    rw [← Except.ok.inj h]
    simp only [toString, String.toList_append, Text.surplus_append, hfield]
    decide
  | construct id argument ih =>
    obtain ⟨inner, hinner, hlast⟩ := bind_eq_ok.1 h
    have hargument := ih hinner hplain hcopied
    rw [← Except.ok.inj hlast]
    simp only [toString, String.toList_append, Text.surplus_append, hnames, hargument]
    decide
  | foreign value => cases h

lemma surplus_parameters {ps : List Parameter} (h : ∀ name ∈ ps.map (·.name), ∀ c ∈ name.toList, c.isAlphanum = true) :
    Text.surplus (parameters m ps).toList = 0 := by
  refine Text.surplus_intercalate_eq_zero (by decide) fun text htext => ?_
  obtain ⟨p, hp, rfl⟩ := List.mem_map.1 htext
  have hname := Text.surplus_alphanum (h p.name (List.mem_map_of_mem hp))
  simp only [toString, String.toList_append, Text.surplus_append, surplus_typeText hnames, hname]
  decide

lemma surplus_fieldLine {f : Field} (h : ∀ c ∈ f.name.toList, c.isAlphanum = true) :
    Text.surplus (fieldLine m f).toList = 0 := by
  have hword : Text.surplus f.visibility.word.toList = 0 := by cases f.visibility <;> decide
  have hfinal : Text.surplus (if f.isFinal then " final" else "").toList = 0 := by cases f.isFinal <;> decide
  simp only [fieldLine, toString, String.toList_append, Text.surplus_append, surplus_typeText hnames, hword, hfinal,
    Text.surplus_alphanum h]
  decide

lemma surplus_constructorLines {name : String} {c : Constructor} (hname : ∀ c ∈ name.toList, c.isAlphanum = true)
    (h : ∀ name ∈ c.names, ∀ c ∈ name.toList, c.isAlphanum = true) :
    Render.surplus (constructorLines m name c) = 0 := by
  obtain ⟨hparameters, hassigned⟩ := List.forall_mem_append.1 h
  have hword : Text.surplus c.visibility.word.toList = 0 := by cases c.visibility <;> decide
  have hassignments : Render.surplus (c.assignments.map fun p => s!"this.{p.1} = {p.2};") = 0 := by
    refine surplus_eq_zero fun line hline => ?_
    obtain ⟨⟨field, parameter⟩, hmem, rfl⟩ := List.mem_map.1 hline
    have hboth : ∀ name ∈ [field, parameter], Text.surplus name.toList = 0 := fun name hin =>
      Text.surplus_alphanum (hassigned name (List.mem_flatMap.2 ⟨_, hmem, hin⟩))
    have hfield := hboth field List.mem_cons_self
    have hparameter := hboth parameter (List.mem_cons_of_mem _ List.mem_cons_self)
    simp only [toString, String.toList_append, Text.surplus_append, hfield, hparameter]
    decide
  have hclosing : Text.surplus "\x7d".toList = -1 := by decide
  rw [constructorLines, surplus_append, surplus_append, surplus_indent, surplus_cons, surplus_cons, surplus_nil,
    hclosing]
  change _ + Render.surplus (c.assignments.map fun p => s!"this.{p.1} = {p.2};") + _ = 0
  rw [hassignments]
  simp only [toString, String.toList_append, Text.surplus_append, hword, Text.surplus_alphanum hname,
    surplus_parameters hnames hparameters]
  decide

lemma surplus_methodLines {method : Method} {lines : List String} (h : methodLines m method = .ok lines)
    (hplain : ∀ name ∈ method.names, ∀ c ∈ name.toList, c.isAlphanum = true)
    (hcopied : ∀ part ∈ method.copied, Text.surplus part.toList = 0) : Render.surplus lines = 0 := by
  unfold Method.names at hplain
  unfold Method.copied at hcopied
  obtain ⟨hname, hrest⟩ := List.forall_mem_cons.1 hplain
  obtain ⟨hparameters, hbody⟩ := List.forall_mem_append.1 hrest
  have hword : Text.surplus method.visibility.word.toList = 0 := by cases method.visibility <;> decide
  have hunit : Text.surplus indentUnit.toList = 0 := by decide
  have hclosing : Text.surplus "\x7d".toList = -1 := by decide
  unfold methodLines at h
  split at h
  · next body hsome =>
    rw [hsome] at hbody hcopied
    obtain ⟨value, hexpr, hlast⟩ := bind_eq_ok.1 h
    have hvalue := surplus_expr hnames hexpr hbody hcopied
    rw [← Except.ok.inj hlast, surplus_cons, surplus_cons, surplus_cons, surplus_nil, hclosing]
    simp only [toString, String.toList_append, Text.surplus_append, hword, surplus_typeText hnames,
      Text.surplus_alphanum hname, surplus_parameters hnames hparameters, hunit, hvalue]
    decide
  · cases h

/-- By how many braces the code of a method opens more than it closes. -/
def methodSurplus (m : Model) (method : Method) : Int :=
  (methodLines m method).toOption.elim 0 Render.surplus

omit hnames in
lemma surplus_methods {methods : List Method} {blocks : List (List String)}
    (h : methods.mapM (methodLines m) = .ok blocks) :
    (blocks.map Render.surplus).sum = (methods.map (methodSurplus m)).sum := by
  induction methods generalizing blocks with
  | nil =>
    obtain rfl : [] = blocks := by simpa [pure, Except.pure] using h
    rfl
  | cons method methods ih =>
    rw [List.mapM_cons] at h
    obtain ⟨lines, hlines, h⟩ := bind_eq_ok.1 h
    obtain ⟨others, hothers, hlast⟩ := bind_eq_ok.1 h
    have hmethod : methodSurplus m method = Render.surplus lines := by
      rw [methodSurplus, hlines]
      rfl
    rw [← Except.ok.inj hlast, List.map_cons, List.sum_cons, List.map_cons, List.sum_cons, ih hothers, hmethod]

/-- Fields and constructors close what they open. -/
lemma surplus_data {t : WrapperType} (hplain : t.Plain) :
    (((if t.fields.isEmpty then [] else [t.fields.map (fieldLine m)]) ++
      t.constructors.map (constructorLines m t.name)).map Render.surplus).sum = 0 := by
  unfold WrapperType.Plain WrapperType.names at hplain
  obtain ⟨hname, hmembers⟩ := List.forall_mem_cons.1 hplain
  obtain ⟨hfields, hconstructors⟩ := List.forall_mem_append.1 (List.forall_mem_append.1 hmembers).1
  refine List.sum_eq_zero fun x hx => ?_
  obtain ⟨block, hblock, rfl⟩ := List.mem_map.1 hx
  rcases List.mem_append.1 hblock with hblock | hblock
  · split at hblock
    · cases hblock
    · rw [List.mem_singleton.1 hblock]
      refine surplus_eq_zero fun line hline => ?_
      obtain ⟨f, hf, rfl⟩ := List.mem_map.1 hline
      exact surplus_fieldLine hnames (hfields f.name (List.mem_map_of_mem hf))
  · obtain ⟨c, hc, rfl⟩ := List.mem_map.1 hblock
    refine surplus_constructorLines hnames hname fun name hin => ?_
    exact hconstructors name (List.mem_flatMap.2 ⟨c, hc, hin⟩)

end Classes

/-- By how many braces the code of a type opens more than it closes, without the types inside it. -/
def typeSurplus (m : Model) (t : WrapperType) : Int :=
  Text.surplus t.doc.toList + (t.methods.map (methodSurplus m)).sum

variable {m : Model}

lemma typeSurplus_eq_zero (hnames : ∀ id, Text.surplus (typeName m id).toList = 0) {t : WrapperType}
    (ht : t.Balanced) : typeSurplus m t = 0 := by
  have hmethods : (t.methods.map (methodSurplus m)).sum = 0 := by
    refine List.sum_eq_zero fun x hx => ?_
    obtain ⟨method, hmethod, rfl⟩ := List.mem_map.1 hx
    unfold methodSurplus
    cases hlines : methodLines m method with
    | error cause => rfl
    | ok lines =>
      refine surplus_methodLines hnames hlines (fun name hin => ht.plain name ?_) fun part hin => ht.copied part ?_
      · exact List.mem_cons_of_mem _ (List.mem_append_right _ (List.mem_flatMap.2 ⟨method, hmethod, hin⟩))
      · exact List.mem_flatMap.2 ⟨method, hmethod, hin⟩
  rw [typeSurplus, ht.doc, hmethods, add_zero]

mutual

/-- The braces of a class are those of its type and of the types inside it. -/
theorem surplus_classLines (hnames : ∀ id, Text.surplus (typeName m id).toList = 0) :
    (tree : TypeTree) → (∀ t ∈ tree.types, t.Ended) → ∀ {lines : List String}, classLines m tree = .ok lines →
      Render.surplus lines = (tree.types.map (typeSurplus m)).sum
  | .node id t inner, hended, lines, h => by
    obtain ⟨ht, hinner⟩ := List.forall_mem_cons.1 hended
    unfold classLines at h
    obtain ⟨methods, hmethods, h⟩ := bind_eq_ok.1 h
    obtain ⟨nested, hnested, hlast⟩ := bind_eq_ok.1 h
    have hdoc : Render.surplus (if t.doc.isEmpty then [] else docComment t.doc) = Text.surplus t.doc.toList := by
      split
      · next hempty =>
        rw [String.isEmpty_iff.1 hempty]
        rfl
      · exact surplus_docComment ht.closed
    have hbody : Render.surplus (indent (dropEmptyEnd (spaced
        ((if t.fields.isEmpty then [] else [t.fields.map (fieldLine m)]) ++
          t.constructors.map (constructorLines m t.name) ++ methods ++ nested)))) =
        (t.methods.map (methodSurplus m)).sum + ((TypeTree.allTypes inner).map (typeSurplus m)).sum := by
      rw [surplus_indent, surplus_dropEmptyEnd, surplus_spaced, List.map_append, List.sum_append, List.map_append,
        List.sum_append, surplus_data hnames ht.plain, surplus_methods hmethods, zero_add,
        surplus_classesLines hnames inner hinner hnested]
    have hmodifiers : Text.surplus (if t.isTopLevel then "public" else "public static").toList = 0 := by
      split <;> decide
    have hhead : Text.surplus ((if t.isTopLevel then "public" else "public static") ++ " class " ++ t.name ++
        " \x7b").toList = 1 := by
      have hname := Text.surplus_alphanum (ht.plain t.name List.mem_cons_self)
      simp only [String.toList_append, Text.surplus_append, hmodifiers, hname]
      decide
    have hclosing : Text.surplus "\x7d".toList = -1 := by decide
    rw [TypeTree.types, List.map_cons, List.sum_cons, typeSurplus, ← Except.ok.inj hlast]
    change Render.surplus (_ ++ [(if t.isTopLevel then "public" else "public static") ++ " class " ++ t.name ++
      " \x7b"] ++ _ ++ _) = _
    rw [surplus_append, surplus_append, surplus_append, hdoc, hbody, surplus_cons, surplus_cons, surplus_nil,
      hhead, hclosing]
    omega

theorem surplus_classesLines (hnames : ∀ id, Text.surplus (typeName m id).toList = 0) :
    (trees : List TypeTree) → (∀ t ∈ TypeTree.allTypes trees, t.Ended) → ∀ {blocks : List (List String)},
      classesLines m trees = .ok blocks →
      (blocks.map Render.surplus).sum = ((TypeTree.allTypes trees).map (typeSurplus m)).sum
  | [], _, blocks, h => by
    rw [← Except.ok.inj h]
    rfl
  | tree :: rest, hended, blocks, h => by
    obtain ⟨hfirst, hrest⟩ := List.forall_mem_append.1 hended
    unfold classesLines at h
    obtain ⟨lines, hlines, h⟩ := bind_eq_ok.1 h
    obtain ⟨others, hothers, hlast⟩ := bind_eq_ok.1 h
    rw [← Except.ok.inj hlast, List.map_cons, List.sum_cons, TypeTree.allTypes, List.map_append, List.sum_append,
      surplus_classLines hnames tree hfirst hlines, surplus_classesLines hnames rest hrest hothers]

end

/-! ## Files -/

lemma surplus_typeName (hplain : ∀ t ∈ m.types, t.Plain)
    (hpackages : ∀ package ∈ m.namespaces, Text.surplus package.toList = 0) (id : TypeId) :
    Text.surplus (typeName m id).toList = 0 := by
  have hname (id : TypeId) : Text.surplus (m.nameOf id).toList = 0 := by
    cases ht : m.types[id]? with
    | none => simp [Model.nameOf, ht, Text.surplus]
    | some t =>
      rw [Model.nameOf, ht]
      exact Text.surplus_alphanum (hplain t (List.mem_of_getElem? ht) t.name List.mem_cons_self)
  have hqualified : Text.surplus (m.qualifiedName id).toList = 0 := by
    refine Text.surplus_intercalate_eq_zero (by decide) fun name hmem => ?_
    obtain ⟨outer, -, rfl⟩ := List.mem_map.1 hmem
    exact hname outer
  unfold typeName
  split
  · next package _ hpackage =>
    split
    · exact hqualified
    · have hbalanced := hpackages package (m.mem_namespaces hpackage)
      simp only [toString, String.toList_append, Text.surplus_append, hbalanced, hname]
      decide
  · exact hqualified

lemma holds_iff {part text : List Char} : Output.holds part text = true ↔ part <:+: text := by
  induction text with
  | nil => simp [Output.holds]
  | cons c rest ih => rw [Output.holds, Bool.or_eq_true, List.isPrefixOf_iff_prefix, ih, List.infix_cons_iff]

lemma infix_unlines {line : String} {lines : List String} (h : line ∈ lines) :
    line.toList <:+: (unlines lines).toList := by
  unfold unlines
  induction lines with
  | nil => cases h
  | cons first rest ih =>
    cases rest with
    | nil =>
      rw [List.mem_singleton.1 h]
      exact List.infix_refl _
    | cons second rest =>
      rw [String.intercalate_cons_cons, String.toList_append, String.toList_append, List.append_assoc]
      rcases List.mem_cons.1 h with rfl | h
      · exact (List.prefix_append _ _).isInfix
      · refine (ih h).trans ?_
        exact ((List.suffix_append _ _).trans (List.suffix_append _ _)).isInfix

/-- The code of a class holds the word. -/
lemma exists_line_of_classLines {tree : TypeTree} {lines : List String} (h : classLines m tree = .ok lines) :
    ∃ line ∈ lines, "class ".toList <:+: line.toList := by
  obtain ⟨id, t, inner⟩ := tree
  unfold classLines at h
  obtain ⟨methods, -, h⟩ := bind_eq_ok.1 h
  obtain ⟨nested, -, hlast⟩ := bind_eq_ok.1 h
  let modifiers := if t.isTopLevel then "public" else "public static"
  refine ⟨modifiers ++ " class " ++ t.name ++ " \x7b", ?_, modifiers.toList ++ [' '],
    t.name.toList ++ " \x7b".toList, ?_⟩
  · rw [← Except.ok.inj hlast]
    exact List.mem_append_left _ (List.mem_append_left _ (List.mem_append_right _ List.mem_cons_self))
  · simp

/-- A file has the braces of the types in it, and passes its check if these come to none, and only then. -/
theorem checkJava_of_sources {comment : String} {files : Sources} (hcomment : Text.surplus comment.toList = 0)
    (hpackages : ∀ package ∈ m.namespaces, Text.surplus package.toList = 0) (htypes : ∀ t ∈ m.types, t.Ended)
    (h : sources m comment = .ok files) :
    ∀ f ∈ files, ∃ i < m.namespaces.length, ∃ tree ∈ m.trees i,
      (Output.checkJava f.2 = .ok () ↔ (tree.types.map (typeSurplus m)).sum = 0) := by
  have hnames := surplus_typeName (fun t ht => (htypes t ht).plain) hpackages
  have hfile {package : String} (hpackage : package ∈ m.namespaces) {i : Nat} {tree : TypeTree}
      (htree : tree ∈ m.trees i) {lines : List String} (hlines : classLines m tree = .ok lines) :
      Output.checkJava (preamble comment package ++ "\n" ++ unlines lines ++ "\n") = .ok () ↔
        (tree.types.map (typeSurplus m)).sum = 0 := by
    have hended : ∀ t ∈ tree.types, t.Ended := fun t ht =>
      htypes t (m.types_treesFrom _ _ (TypeTree.types_subset_allTypes htree ht))
    have hword : "class ".toList <:+: (preamble comment package ++ "\n" ++ unlines lines ++ "\n").toList := by
      obtain ⟨line, hline, hword⟩ := exists_line_of_classLines hlines
      refine (hword.trans (infix_unlines hline)).trans ?_
      rw [String.toList_append, String.toList_append]
      exact (List.suffix_append _ _).isInfix.trans (List.prefix_append _ _).isInfix
    have hpreamble : Text.surplus (preamble comment package).toList = 0 := by
      have hpart {condition : Bool} {text : String} (htext : Text.surplus text.toList = 0) :
          Text.surplus (if condition then "" else text).toList = 0 := by
        cases condition
        · exact htext
        · rfl
      have hfeed : Text.surplus (comment ++ "\n").toList = 0 := by
        rw [String.toList_append, Text.surplus_append, hcomment]
        decide
      have hdeclared : Text.surplus ("package " ++ package ++ ";\n\n").toList = 0 := by
        simp only [String.toList_append, Text.surplus_append, hpackages package hpackage]
        decide
      simp only [preamble, String.toList_append, Text.surplus_append, hpart hfeed, hpart hdeclared]
      decide
    have hall : Text.surplus (preamble comment package ++ "\n" ++ unlines lines ++ "\n").toList =
        (tree.types.map (typeSurplus m)).sum := by
      have hfeed : Text.surplus "\n".toList = 0 := by decide
      simp only [String.toList_append, Text.surplus_append, hpreamble, surplus_unlines, hfeed,
        surplus_classLines hnames tree hended hlines]
      omega
    rw [Output.checkJava_eq_ok_iff, holds_iff, ← hall, Text.surplus]
    constructor
    · rintro ⟨-, hcounts⟩
      omega
    · exact fun hcounts => ⟨hword, by omega⟩
  refine foldlM_eq_ok_induction (P := fun files : Sources => ∀ f ∈ files, ∃ i < m.namespaces.length, ∃ tree ∈ m.trees i,
    (Output.checkJava f.2 = .ok () ↔ (tree.types.map (typeSurplus m)).sum = 0)) ?_ ?_ h
  · rintro ⟨package, i⟩ hpackage files files' hfiles hstep
    have hmem : package ∈ m.namespaces := List.fst_mem_of_mem_zipIdx hpackage
    have hi : i < m.namespaces.length :=
      (List.getElem?_eq_some_iff.1 (List.mk_mem_zipIdx_iff_getElem?.1 hpackage)).1
    refine foldlM_eq_ok_induction (P := fun files : Sources =>
      ∀ f ∈ files, ∃ i < m.namespaces.length, ∃ tree ∈ m.trees i,
        (Output.checkJava f.2 = .ok () ↔ (tree.types.map (typeSurplus m)).sum = 0)) ?_ hfiles hstep
    rintro ⟨id, t, inner⟩ htree files files' hfiles hone
    obtain ⟨lines, hlines, hlast⟩ := bind_eq_ok.1 hone
    rw [← Except.ok.inj hlast]
    intro f hf
    rcases Table.mem_put hf with hf | rfl
    · exact hfiles f hf
    · exact ⟨i, hi, _, htree, hfile hmem htree hlines⟩
  · exact fun f hf => (List.not_mem_nil hf).elim

end Render.Java

end SchemaAccessors
