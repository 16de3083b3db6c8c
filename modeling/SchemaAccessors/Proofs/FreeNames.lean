import Mathlib.Data.Finset.Card
import SchemaAccessors.Proofs.Identifiers
import SchemaAccessors.Proofs.Variations

/-!
# The first free name

Two loops inside one another look for the name of a type: the inner one passes over names that the language, a
type around the new one or a type of the other level has, and the outer one over those of siblings. Together they
are one search through a name and its variations, and so is the one for the name of a member (`Search`). As the
variations of a name are all different, a search that gives up has met as many names that bar one.
-/

namespace SchemaAccessors

/-! ## Searches -/

namespace Naming

variable {taken : String → Prop} {attempts : Nat} {base : String} {found : String → Prop} {gaveUp : Prop}
  {overlong : Number.Overlong → Prop}

/-- How a search through a name and its variations ends: with the first that is not taken, with more than
`attempts` names that are taken, or where a name that is taken has a number with too many digits to be counted up.
What each of these comes to is said by the last three arguments. -/
inductive Search (taken : String → Prop) (attempts : Nat) (base : String) (found : String → Prop) (gaveUp : Prop)
    (overlong : Number.Overlong → Prop) : Prop
  | found (k : Nat) (free : ¬ taken (vary^[k] base)) (before : ∀ j < k, taken (vary^[j] base))
      (result : found (vary^[k] base))
  | gaveUp (all : ∀ k < attempts, taken (vary^[k] base)) (result : gaveUp)
  | overlong (k : Nat) (o : Number.Overlong) (all : ∀ j ≤ k, taken (vary^[j] base))
      (endless : next (vary^[k] base) = .error o) (result : overlong o)

/-- A search that goes on behind names that are taken is one from the first of them. -/
lemma Search.behind {k : Nat} (htaken : ∀ j ≤ k, taken (vary^[j] base))
    (h : Search taken attempts (vary^[k + 1] base) found gaveUp overlong) :
    Search taken (attempts + 1) base found gaveUp overlong := by
  have hshift (i : Nat) : vary^[i] (vary^[k + 1] base) = vary^[i + (k + 1)] base :=
    (Function.iterate_add_apply vary i (k + 1) base).symm
  have hbefore {n : Nat} (hrest : ∀ j < n, taken (vary^[j] (vary^[k + 1] base))) :
      ∀ j < n + (k + 1), taken (vary^[j] base) := by
    intro j hj
    by_cases hk : j ≤ k
    · exact htaken j hk
    · obtain ⟨i, rfl⟩ := Nat.exists_eq_add_of_le' (Nat.lt_of_not_le hk)
      rw [← hshift]
      exact hrest i (by omega)
  cases h with
  | found i free before result =>
    rw [hshift] at free result
    exact .found (i + (k + 1)) free (hbefore before) result
  | gaveUp all result =>
    refine .gaveUp (fun j hj => hbefore all j ?_) result
    omega
  | overlong i o all endless result =>
    rw [hshift] at endless
    refine .overlong (i + (k + 1)) o (fun j hj => ?_) endless result
    exact hbefore (n := i + 1) (fun j hj => all j (Nat.le_of_lt_succ hj)) j (by omega)

/-- A search that is given what its ends come to in other words. -/
lemma Search.imp {found' : String → Prop} {gaveUp' : Prop} {overlong' : Number.Overlong → Prop}
    (h : Search taken attempts base found gaveUp overlong) (hfound : ∀ name, found name → found' name)
    (hgaveUp : (∀ k < attempts, taken (vary^[k] base)) → gaveUp → gaveUp') (hoverlong : ∀ o, overlong o → overlong' o) :
    Search taken attempts base found' gaveUp' overlong' := by
  cases h with
  | found k free before result => exact .found k free before (hfound _ result)
  | gaveUp all result => exact .gaveUp all (hgaveUp all result)
  | overlong k o all endless result => exact .overlong k o all endless (hoverlong o result)

end Naming

open Naming (Search)

/-- The search among some names at most. -/
lemma search_firstFree? (taken : String → Bool) (attempts : Nat) (base : String) :
    Search (taken · = true) attempts base (fun name => firstFree? taken attempts base = .ok (some name))
      (firstFree? taken attempts base = .ok none) (fun o => firstFree? taken attempts base = .error o) := by
  induction attempts generalizing base with
  | zero => exact .gaveUp (fun k hk => by omega) rfl
  | succ attempts ih =>
    have hopen : firstFree? taken (attempts + 1) base =
        if taken base then (Naming.next base >>= firstFree? taken attempts) else .ok (some base) := rfl
    rw [hopen]
    by_cases htaken : taken base = true
    · rw [if_pos htaken]
      have hfirst : ∀ j ≤ 0, taken (Naming.vary^[j] base) = true := by
        intro j hj
        obtain rfl : j = 0 := by omega
        exact htaken
      cases hnext : Naming.next base with
      | error o => exact .overlong 0 o hfirst hnext rfl
      | ok name =>
        obtain rfl := Naming.eq_vary_of_next hnext
        exact (ih (Naming.vary base)).behind hfirst
    · rw [if_neg htaken]
      refine .found 0 htaken (fun j hj => by omega) rfl

/-! ## Names of types -/

namespace Model

/-- What bars a name for a type in a container. -/
inductive Clash (m : Model) (c : Container) (name : String) : Prop
  | reserved (reserves : name ∈ m.reservedTypes)
  | enclosing {id : TypeId} (around : id ∈ m.around c) (same : m.nameOf id = name)
  | sibling {t : WrapperType} (mem : t ∈ m.types) (beside : t.container = c) (same : t.name = name)
  /-- The new type is nested, and one on top level has the name. -/
  | outermost {t : WrapperType} (nested : ∃ outer, c = .inside outer) (mem : t ∈ m.types)
      (top : t.isTopLevel = true) (same : t.name = name)
  /-- The new type is on top level, and a nested one has the name. -/
  | inner {t : WrapperType} (top : ∃ i, c = .top i) (mem : t ∈ m.types) (nested : t.isTopLevel = false)
      (same : t.name = name)

variable {m : Model} {c : Container} {name : String}

lemma isSome_find? : (m.find? c name).isSome = true ↔ ∃ t ∈ m.types, t.container = c ∧ t.name = name := by
  rw [find?, Option.isSome_map, List.find?_isSome]
  constructor
  · rintro ⟨⟨id, t⟩, hmem, hname⟩
    obtain ⟨ht, hc⟩ := mem_children.1 hmem
    exact ⟨t, List.mem_of_getElem? ht, hc, by simpa using hname⟩
  · rintro ⟨t, ht, hc, hname⟩
    obtain ⟨id, hid⟩ := List.getElem?_of_mem ht
    exact ⟨(id, t), mem_children.2 ⟨hid, hc⟩, by simpa using hname⟩

/-- What the two loops pass over is what bars a name. -/
lemma clash_iff : m.Clash c name ↔ m.isUnavailable c name = true ∨ (m.find? c name).isSome = true := by
  rw [isSome_find?]
  simp only [isUnavailable, Bool.or_eq_true, List.any_eq_true, Bool.and_eq_true, beq_iff_eq, decide_eq_true_eq,
    List.contains_iff_mem]
  constructor
  · intro h
    cases h with
    | reserved reserves => exact .inl (.inl (.inl reserves))
    | enclosing around same => exact .inl (.inr ⟨_, around, same⟩)
    | sibling mem beside same => exact .inr ⟨_, mem, beside, same⟩
    | outermost nested mem top same =>
      obtain ⟨outer, rfl⟩ := nested
      exact .inl (.inl (.inr ⟨_, mem, by rw [top]; rfl, same⟩))
    | inner top mem nested same =>
      obtain ⟨i, rfl⟩ := top
      exact .inl (.inl (.inr ⟨_, mem, by rw [nested]; rfl, same⟩))
  · rintro (((h | ⟨t, ht, hlevel, hname⟩) | ⟨id, hid, hname⟩) | ⟨t, ht, hc, hname⟩)
    · exact .reserved h
    · cases c with
      | top i => exact .inner ⟨i, rfl⟩ ht hlevel hname
      | inside outer => exact .outermost ⟨outer, rfl⟩ ht hlevel hname
    · exact .enclosing hid hname
    · exact .sibling ht hc hname

/-- Only a reserved name and the name of a type bar a name. -/
lemma Clash.mem (h : m.Clash c name) (hname : name ≠ "") : name ∈ m.reservedTypes ++ m.types.map (·.name) := by
  have htype {t : WrapperType} (ht : t ∈ m.types) (hsame : t.name = name) :
      name ∈ m.reservedTypes ++ m.types.map (·.name) :=
    List.mem_append_right _ (List.mem_map.2 ⟨t, ht, hsame⟩)
  cases h with
  | reserved reserves => exact List.mem_append_left _ reserves
  | @enclosing id around same =>
    cases ht : m.types[id]? with
    | none =>
      rw [nameOf, ht] at same
      exact (hname same.symm).elim
    | some t =>
      rw [nameOf_eq ht] at same
      exact htype (List.mem_of_getElem? ht) same
  | sibling mem beside same => exact htype mem same
  | outermost nested mem top same => exact htype mem same
  | inner top mem nested same => exact htype mem same

end Model

namespace Drafting

/-- The state with a type declared behind the others. -/
def withNew (d : Drafting) (t : WrapperType) : Drafting :=
  { d with model := { d.model with types := d.model.types ++ [t] } }

/-- The two loops are one search. -/
lemma search_declareType (n : SchemaNode) (doc : String) (c : Container) (attempts left : Nat) (base : String)
    (d : Drafting) (hleft : left ≤ attempts) :
    let r := outcome (declareType n doc c attempts left base) d
    Search (d.model.Clash c) left base
      (fun name => ∃ trace, r = (.ok d.model.types.length, { d.withNew { name, container := c, doc } with trace }))
      (∃ trace, ∃ e ∈ [Failure.noTypeName n.uri, .noUnenclosedName n.uri], r = (.error e, { d with trace }))
      (fun o => ∃ trace, r = (.error (.overlong o), { d with trace })) := by
  induction left generalizing base d with
  | zero => exact .gaveUp (fun k hk => by omega) ⟨d.trace, _, List.mem_cons_self, rfl⟩
  | succ left ih =>
    have hclash {name : String} (h : d.model.isUnavailable c name = true) : d.model.Clash c name :=
      Model.clash_iff.2 (.inl h)
    dsimp only
    unfold declareType
    rw [outcome_bind_of_ok (outcome_get d)]
    dsimp only
    cases search_firstFree? (d.model.isUnavailable c) attempts base with
    | overlong k o all endless result =>
      rw [result, Except.mapError, outcome_bind_of_error (outcome_lift d _)]
      exact .overlong k o (fun j hj => hclash (all j hj)) endless ⟨_, rfl⟩
    | gaveUp all result =>
      rw [result, Except.mapError, outcome_bind_of_ok (outcome_lift d _)]
      exact .gaveUp (fun k hk => hclash (all k (by omega))) ⟨_, _, List.mem_cons_of_mem _ List.mem_cons_self, rfl⟩
    | found k free before result =>
      rw [result, Except.mapError, outcome_bind_of_ok (outcome_lift d _)]
      dsimp only
      cases htaken : d.model.find? c (Naming.vary^[k] base) with
      | none =>
        rw [Model.declare_of_free _ htaken]
        refine .found k (fun h => ?_) (fun j hj => hclash (before j hj)) ⟨_, rfl⟩
        rcases Model.clash_iff.1 h with h | h
        · exact free h
        · simp [htaken] at h
      | some sibling =>
        rw [Model.declare_of_taken _ htaken]
        dsimp only
        rw [outcome_bind_of_ok (outcome_note d _)]
        have hall : ∀ j ≤ k, d.model.Clash c (Naming.vary^[j] base) := by
          intro j hj
          rcases Nat.lt_or_eq_of_le hj with hj | rfl
          · exact hclash (before j hj)
          · exact Model.clash_iff.2 (.inr (by rw [htaken]; rfl))
        cases hnext : Naming.next (Naming.vary^[k] base) with
        | error o => exact .overlong k o hall hnext ⟨_, by rw [nextName, hnext]; rfl⟩
        | ok next =>
          have hlift : nextName (Naming.vary^[k] base) = lift (.ok next) := by rw [nextName, hnext]; rfl
          obtain rfl : next = Naming.vary^[k + 1] base := by
            rw [Naming.eq_vary_of_next hnext, Function.iterate_succ_apply']
          rw [hlift, outcome_bind_of_ok (outcome_lift _ _)]
          have hrest := ih (Naming.vary^[k + 1] base)
            { d with trace := d.trace.push (.siblingTaken (Naming.vary^[k] base)) } (by omega)
          exact hrest.behind hall

end Drafting

/-! ## Names of members -/

/-- The names of the members of a type. -/
def Model.memberNames (m : Model) (type : TypeId) : List String :=
  (m.types[type]?).elim [] WrapperType.memberNames

lemma Model.hasMember_iff {m : Model} {type : TypeId} {name : String} :
    m.hasMember type name = true ↔ name ∈ m.reservedMembers ++ m.memberNames type := by
  have hdeclares (t : WrapperType) : t.declares name = true ↔ name ∈ t.memberNames := by
    simp only [WrapperType.declares, WrapperType.memberNames, Bool.or_eq_true, List.any_eq_true, decide_eq_true_eq,
      List.mem_append, List.mem_map]
    exact or_comm
  rw [hasMember, Bool.or_eq_true, List.contains_iff_mem, List.mem_append, memberNames]
  cases m.types[type]? with
  | none => simp
  | some t => exact or_congr_right (hdeclares t)

/-- Whether a text with a stem in front can be told from one with another stem. -/
def Naming.StemsApart (stems : List String) : Prop :=
  ∀ stem ∈ stems, ∀ stem' ∈ stems, ∀ text text' : String, stem ++ text = stem' ++ text' → text = text'

lemma Naming.stemsApart_methodStems : StemsApart methodStems := by
  have hheads : ∀ stem ∈ methodStems, ∀ stem' ∈ methodStems,
      stem.toList.head? = stem'.toList.head? → stem = stem' := by decide
  have hstems : ∀ stem ∈ methodStems, stem.toList ≠ [] := by decide
  intro stem hstem stem' hstem' text text' hsame
  have htexts : stem.toList ++ text.toList = stem'.toList ++ text'.toList := by
    rw [← String.toList_append, hsame, String.toList_append]
  have hhead := congrArg List.head? htexts
  rw [List.head?_append_of_ne_nil _ (hstems stem hstem), List.head?_append_of_ne_nil _ (hstems stem' hstem')] at hhead
  obtain rfl := hheads stem hstem stem' hstem' hhead
  exact String.toList_inj.1 (List.append_cancel_left htexts)

namespace Drafting

lemma search_freeSuffix (type : TypeId) (stems : List String) (left : Nat) (base : String) (d : Drafting) :
    let r := outcome (freeSuffix type stems left base) d
    Search (fun suffix => ∃ stem ∈ stems, d.model.hasMember type (stem ++ suffix) = true) left base
      (fun suffix => ∃ trace, r = (.ok suffix, { d with trace }))
      (∃ trace, r = (.error (.noMemberName (Naming.vary^[left] base) (d.model.nameOf type)), { d with trace }))
      (fun o => ∃ trace, r = (.error (.overlong o), { d with trace })) := by
  induction left generalizing base d with
  | zero => exact .gaveUp (fun k hk => by omega) ⟨d.trace, rfl⟩
  | succ left ih =>
    dsimp only
    unfold freeSuffix
    rw [outcome_bind_of_ok (outcome_get d)]
    dsimp only
    by_cases htaken : ∃ stem ∈ stems, d.model.hasMember type (stem ++ base) = true
    · rw [if_pos (List.any_eq_true.2 htaken), outcome_bind_of_ok (outcome_note d _)]
      have hfirst : ∀ j ≤ 0, ∃ stem ∈ stems, d.model.hasMember type (stem ++ Naming.vary^[j] base) = true := by
        intro j hj
        obtain rfl : j = 0 := by omega
        exact htaken
      cases hnext : Naming.next base with
      | error o => exact .overlong 0 o hfirst hnext ⟨_, by rw [nextName, hnext]; rfl⟩
      | ok next =>
        have hlift : nextName base = lift (.ok next) := by rw [nextName, hnext]; rfl
        obtain rfl := Naming.eq_vary_of_next hnext
        rw [hlift, outcome_bind_of_ok (outcome_lift _ _)]
        have hrest := ih (Naming.vary base)
          { d with trace := d.trace.push (.memberTaken (stems.headD "" ++ base) (d.model.nameOf type)) }
        exact hrest.behind hfirst
    · rw [if_neg fun h => htaken (List.any_eq_true.1 h)]
      exact .found 0 htaken (fun j hj => by omega) ⟨_, rfl⟩

end Drafting

/-! ## Enough names

One name that is there bars one variation at most. -/

lemma le_length_of_forall_exists_mem (names : List String) {attempts : Nat} (bars : String → Nat → Prop)
    (hall : ∀ k < attempts, ∃ name ∈ names, bars name k)
    (hsingle : ∀ name i j, bars name i → bars name j → i = j) : attempts ≤ names.length := by
  classical
  choose! f hmem hbars using hall
  have hcard : (Finset.range attempts).card ≤ names.toFinset.card := by
    refine Finset.card_le_card_of_injOn f (fun k hk => ?_) fun i hi j hj hsame => ?_
    · exact List.mem_toFinset.2 (hmem k (Finset.mem_range.1 hk))
    · refine hsingle (f i) i j (hbars i (Finset.mem_range.1 hi)) ?_
      rw [hsame]
      exact hbars j (Finset.mem_range.1 hj)
  rw [Finset.card_range] at hcard
  exact hcard.trans (List.toFinset_card_le names)

lemma Model.le_of_clashes {m : Model} {c : Container} {attempts : Nat} {base : String}
    (hbase : Naming.isTypeName base = true) (hall : ∀ k < attempts, m.Clash c (Naming.vary^[k] base)) :
    attempts ≤ m.reservedTypes.length + m.types.length := by
  have hle : attempts ≤ (m.reservedTypes ++ m.types.map (·.name)).length := by
    refine le_length_of_forall_exists_mem _ (fun name k => Naming.vary^[k] base = name)
      (fun k hk => ⟨_, (hall k hk).mem fun hempty => ?_, rfl⟩) fun name i j hi hj => ?_
    · have hspelled := Naming.isTypeName_iterate_vary hbase k
      rw [hempty] at hspelled
      cases hspelled
    · exact Naming.iterate_vary_injective base (hi.trans hj.symm)
  rwa [List.length_append, List.length_map] at hle

lemma Model.le_of_hasMember {m : Model} {type : TypeId} {stems : List String} {attempts : Nat} {base : String}
    (hstems : Naming.StemsApart stems)
    (hall : ∀ k < attempts, ∃ stem ∈ stems, m.hasMember type (stem ++ Naming.vary^[k] base) = true) :
    attempts ≤ m.reservedMembers.length + (m.memberNames type).length := by
  have hle : attempts ≤ (m.reservedMembers ++ m.memberNames type).length := by
    refine le_length_of_forall_exists_mem _ (fun name k => ∃ stem ∈ stems, stem ++ Naming.vary^[k] base = name)
      (fun k hk => ?_) fun name i j ⟨stem, hstem, hi⟩ ⟨stem', hstem', hj⟩ => ?_
    · obtain ⟨stem, hstem, htaken⟩ := hall k hk
      exact ⟨_, hasMember_iff.1 htaken, stem, hstem, rfl⟩
    · exact Naming.iterate_vary_injective base (hstems stem hstem stem' hstem' _ _ (hi.trans hj.symm))
  rwa [List.length_append] at hle

namespace Drafting

/-- The name that a type is declared under is the first among the name for the URI of its node and its variations that
nothing bars, and the suffix for the names of members is the first with which no stem gives a name that there is. A
search that does not end so fails behind as many taken names as may be tried, and only with as many names in the
language and among the types or members; or it meets a number with too many digits. -/
theorem search_of_naming (d : Drafting) (attempts : Nat) :
    (∀ (n : SchemaNode) (doc : String) (c : Container),
      let r := outcome (declareType n doc c attempts attempts (Naming.typeName n.uri)) d
      Search (d.model.Clash c) attempts (Naming.typeName n.uri)
        (fun name => ∃ trace, r = (.ok d.model.types.length, { d.withNew { name, container := c, doc } with trace }))
        (attempts ≤ d.model.reservedTypes.length + d.model.types.length ∧
          ∃ trace, ∃ e ∈ [Failure.noTypeName n.uri, .noUnenclosedName n.uri], r = (.error e, { d with trace }))
        (fun o => ∃ trace, r = (.error (.overlong o), { d with trace }))) ∧
    ∀ (type : TypeId) (stems : List String) (suffix : String),
      let r := outcome (freeSuffix type stems attempts suffix) d
      Search (fun suffix => ∃ stem ∈ stems, d.model.hasMember type (stem ++ suffix) = true) attempts suffix
        (fun suffix => ∃ trace, r = (.ok suffix, { d with trace }))
        ((stems ⊆ Naming.methodStems → attempts ≤ d.model.reservedMembers.length + (d.model.memberNames type).length) ∧
          ∃ last trace, r = (.error (.noMemberName last (d.model.nameOf type)), { d with trace }))
        (fun o => ∃ trace, r = (.error (.overlong o), { d with trace })) := by
  refine ⟨fun n doc c => ?_, fun type stems suffix => ?_⟩
  · refine (search_declareType n doc c attempts attempts _ d le_rfl).imp (fun name h => h) (fun hall h => ⟨?_, h⟩)
      fun o h => h
    exact Model.le_of_clashes (Naming.isTypeName_typeName n.uri) hall
  · refine (search_freeSuffix type stems attempts suffix d).imp (fun name h => h) (fun hall h => ⟨?_, _, h⟩) fun o h => h
    intro hstems
    refine Model.le_of_hasMember (fun stem hstem stem' hstem' => ?_) hall
    exact Naming.stemsApart_methodStems stem (hstems hstem) stem' (hstems hstem')

/-- A language that keeps `None`, and types `None2` and, inside it, `None3`. -/
def crowded : Drafting :=
  start ⟨[]⟩ ⟨["None"], ["getNone2"], ["model"],
    [{ name := "None2", container := .top 0, doc := "",
        methods := [{ name := "hasNone", returns := ⟨.any, none⟩, body? := none }] },
      { name := "None3", container := .inside 0, doc := "" }]⟩

/-- The outer loop goes on behind a sibling, so two tries are enough to pass over three names. -/
example :
    (outcome (declareType Odd.root "" (.top 0) 2 2 "None") crowded).2.model.types.map (·.name) =
        ["None2", "None3", "None4"] ∧
      (outcome (declareType Odd.root "" (.top 0) 1 1 "None") crowded).1.toBool = false ∧
      (outcome (freeSuffix 0 ["get", "has"] 3 "None") crowded).1.toOption = some "None3" := by
  decide +kernel

end Drafting

end SchemaAccessors
