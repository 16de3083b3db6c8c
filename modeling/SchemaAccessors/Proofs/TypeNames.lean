import SchemaAccessors.Generation
import SchemaAccessors.Proofs.Registry

/-!
# Names of types

Types are declared in an order that the references of the documents decide, and a name that is free for one
type may come to stand around or beside a later one. What keeps names apart is that a type is declared behind
all types around it: a new name has to be compared with what is there, and nothing that is there moves. The
invariant is `NamesApart`. Each change of drafting keeps it, and so do calls that fail.
-/

namespace SchemaAccessors

namespace Model

/-- One type is around another, directly or not. -/
def Encloses (m : Model) (outer inner : TypeId) : Prop :=
  Relation.TransGen (fun a b => m.outer? b = some a) outer inner

/-- What the names of types have to be: different from those of siblings and of the types around them, on top
level different from those of all nested types, and never reserved. -/
structure WellNamed (m : Model) : Prop where
  siblings : ∀ ⦃i j : TypeId⦄ ⦃t u : WrapperType⦄, m.types[i]? = some t → m.types[j]? = some u →
    t.container = u.container → t.name = u.name → i = j
  enclosing : ∀ ⦃i j : TypeId⦄ ⦃t u : WrapperType⦄, m.types[i]? = some t → m.types[j]? = some u →
    m.Encloses i j → t.name ≠ u.name
  levels : ∀ t ∈ m.types, ∀ u ∈ m.types, t.isTopLevel = true → u.isTopLevel = false → t.name ≠ u.name
  reserved : ∀ t ∈ m.types, t.name ∉ m.reservedTypes

/-! ## Types behind the types around them -/

/-- Every type is declared behind the type that it is inside of. -/
def Layered (m : Model) : Prop :=
  ∀ ⦃i o : Nat⦄, m.outer? i = some o → o < i

lemma outer?_eq_some {m : Model} {i o : Nat} :
    m.outer? i = some o ↔ ∃ t, m.types[i]? = some t ∧ t.container = .inside o := by
  unfold outer?
  cases m.types[i]? with
  | none => simp
  | some t => cases h : t.container <;> simp [h]

lemma mem_children {m : Model} {c : Container} {id : TypeId} {t : WrapperType} :
    (id, t) ∈ m.children c ↔ m.types[id]? = some t ∧ t.container = c := by
  simp only [children, List.mem_map, List.mem_filter, decide_eq_true_eq, Prod.exists, Prod.mk.injEq,
    ← List.mk_mem_zipIdx_iff_getElem?]
  constructor
  · rintro ⟨u, i, ⟨hmem, hc⟩, rfl, rfl⟩
    exact ⟨hmem, hc⟩
  · rintro ⟨hmem, hc⟩
    exact ⟨t, id, ⟨hmem, hc⟩, rfl, rfl⟩

lemma nameOf_eq {m : Model} {i : Nat} {t : WrapperType} (h : m.types[i]? = some t) : m.nameOf i = t.name := by
  rw [nameOf, h]
  rfl

lemma Layered.lt_of_encloses {m : Model} (hm : m.Layered) {i j : Nat} (h : m.Encloses i j) : i < j := by
  induction h with
  | single houter => exact hm houter
  | tail _ houter ih => exact ih.trans (hm houter)

/-- All types around a type of a layered model are found by going from type to type. -/
lemma Layered.mem_enclosing {m : Model} (hm : m.Layered) {i j : Nat} (h : m.Encloses i j) :
    i ∈ m.enclosing j := by
  induction h with
  | single houter =>
    rw [enclosing, houter]
    simp [hm houter]
  | tail _ houter ih =>
    rw [enclosing, houter]
    simp [hm houter, ih]

/-! ## Changes of types that keep their names -/

section Update

variable {m : Model} {id : TypeId} {f : WrapperType → WrapperType}

/-- A type behind a change that keeps names and containers has the name and container it had. -/
lemma named_of_update (same : ∀ t, (f t).name = t.name ∧ (f t).container = t.container) {i : Nat}
    {t : WrapperType} (h : (m.update id f).types[i]? = some t) :
    ∃ u, m.types[i]? = some u ∧ u.name = t.name ∧ u.container = t.container := by
  obtain ⟨u, hu, rfl⟩ := getElem?_of_modify h
  refine ⟨u, hu, ?_⟩
  by_cases hid : id = i
  · rw [if_pos hid]
    exact ⟨(same u).1.symm, (same u).2.symm⟩
  · rw [if_neg hid]
    exact ⟨rfl, rfl⟩

lemma mem_of_update (same : ∀ t, (f t).name = t.name ∧ (f t).container = t.container) {t : WrapperType}
    (h : t ∈ (m.update id f).types) : ∃ u ∈ m.types, u.name = t.name ∧ u.container = t.container := by
  obtain ⟨i, hi⟩ := List.getElem?_of_mem h
  obtain ⟨u, hu, hsame⟩ := named_of_update same hi
  exact ⟨u, List.mem_of_getElem? hu, hsame⟩

lemma outer?_of_update (same : ∀ t, (f t).name = t.name ∧ (f t).container = t.container) {i o : Nat}
    (h : (m.update id f).outer? i = some o) : m.outer? i = some o := by
  obtain ⟨t, ht, hc⟩ := outer?_eq_some.1 h
  obtain ⟨u, hu, -, hcontainer⟩ := named_of_update same ht
  exact outer?_eq_some.2 ⟨u, hu, hcontainer.trans hc⟩

lemma isTopLevel_congr {t u : WrapperType} (h : t.container = u.container) : t.isTopLevel = u.isTopLevel := by
  unfold WrapperType.isTopLevel
  rw [h]

lemma Layered.update (hm : m.Layered) (same : ∀ t, (f t).name = t.name ∧ (f t).container = t.container) :
    (m.update id f).Layered := fun _ _ h =>
  hm (outer?_of_update same h)

lemma WellNamed.update (hm : m.WellNamed) (same : ∀ t, (f t).name = t.name ∧ (f t).container = t.container) :
    (m.update id f).WellNamed where
  siblings i j t u ht hu hcontainer hname := by
    obtain ⟨t', ht', htname, htcontainer⟩ := named_of_update same ht
    obtain ⟨u', hu', huname, hucontainer⟩ := named_of_update same hu
    exact hm.siblings ht' hu' (by rw [htcontainer, hucontainer, hcontainer]) (by rw [htname, huname, hname])
  enclosing i j t u ht hu hencloses := by
    obtain ⟨t', ht', htname, -⟩ := named_of_update same ht
    obtain ⟨u', hu', huname, -⟩ := named_of_update same hu
    rw [← htname, ← huname]
    exact hm.enclosing ht' hu' (Relation.TransGen.mono (fun _ _ h => outer?_of_update same h) _ _ hencloses)
  levels t ht u hu htop hnested := by
    obtain ⟨t', ht', htname, htcontainer⟩ := mem_of_update same ht
    obtain ⟨u', hu', huname, hucontainer⟩ := mem_of_update same hu
    rw [← htname, ← huname]
    refine hm.levels t' ht' u' hu' ?_ ?_
    · rw [isTopLevel_congr htcontainer, htop]
    · rw [isTopLevel_congr hucontainer, hnested]
  reserved t ht := by
    obtain ⟨t', ht', htname, -⟩ := mem_of_update same ht
    rw [← htname]
    exact hm.reserved t' ht'

end Update

/-! ## A type declared behind the others -/

section Append

variable {m m' : Model} {new : WrapperType}

lemma getElem?_of_append {i : Nat} {t : WrapperType} (happend : m'.types = m.types ++ [new])
    (h : m'.types[i]? = some t) : m.types[i]? = some t ∨ (i = m.types.length ∧ t = new) := by
  rw [happend] at h
  by_cases hi : i < m.types.length
  · left
    rwa [List.getElem?_append_left hi] at h
  · right
    rw [List.getElem?_append_right (by omega)] at h
    have hlength : i - m.types.length = 0 := by
      have hbound := (List.getElem?_eq_some_iff.1 h).1
      simpa using hbound
    rw [hlength] at h
    exact ⟨by omega, by simpa [eq_comm] using h⟩

lemma outer?_of_append {i o : Nat} (happend : m'.types = m.types ++ [new]) (h : m'.outer? i = some o) :
    m.outer? i = some o ∨ (i = m.types.length ∧ new.container = .inside o) := by
  obtain ⟨t, ht, hc⟩ := outer?_eq_some.1 h
  rcases getElem?_of_append happend ht with hold | ⟨hi, rfl⟩
  · exact .inl (outer?_eq_some.2 ⟨t, hold, hc⟩)
  · exact .inr ⟨hi, hc⟩

lemma lt_of_getElem? {i : Nat} {t : WrapperType} (h : m.types[i]? = some t) : i < m.types.length :=
  (List.getElem?_eq_some_iff.1 h).1

/-- The container of a new type is one that the types of the model leave room for. -/
def Contains (m : Model) (c : Container) : Prop :=
  ∀ o : Nat, c = .inside o → o < m.types.length

lemma Layered.append (hm : m.Layered) (happend : m'.types = m.types ++ [new])
    (hcontains : m.Contains new.container) : m'.Layered := by
  intro i o h
  rcases outer?_of_append happend h with hold | ⟨rfl, hc⟩
  · exact hm hold
  · exact hcontains o hc

/-- What is around a type that was there before was around it before. -/
lemma Layered.encloses_of_append (hm : m.Layered) (happend : m'.types = m.types ++ [new]) {i j : Nat}
    (hj : j < m.types.length) (h : m'.Encloses i j) : m.Encloses i j := by
  have old {a b : Nat} (hb : b < m.types.length) (houter : m'.outer? b = some a) : m.outer? b = some a := by
    rcases outer?_of_append happend houter with hold | ⟨rfl, -⟩
    · exact hold
    · omega
  induction h with
  | single houter => exact .single (old hj houter)
  | tail _ houter ih =>
    have hold := old hj houter
    have hlt := hm hold
    exact .tail (ih (by omega)) hold

/-- What is around the new type is what its container tells. -/
lemma Layered.mem_around_of_append (hm : m.Layered) (happend : m'.types = m.types ++ [new])
    (hcontains : m.Contains new.container) {i : Nat} (h : m'.Encloses i m.types.length) :
    i ∈ m.around new.container := by
  have outside {a : Nat} (houter : m'.outer? m.types.length = some a) : new.container = .inside a := by
    rcases outer?_of_append happend houter with hold | ⟨-, hc⟩
    · obtain ⟨t, ht, -⟩ := outer?_eq_some.1 hold
      have hlt := lt_of_getElem? ht
      omega
    · exact hc
  cases h with
  | single houter =>
    rw [outside houter, around]
    exact List.mem_cons_self
  | tail hencloses houter =>
    have hc := outside houter
    have hold := hm.encloses_of_append happend (hcontains _ hc) hencloses
    rw [hc, around]
    exact List.mem_cons_of_mem _ (hm.mem_enclosing hold)

lemma isTopLevel_eq_isEmpty_around (t : WrapperType) : t.isTopLevel = (m.around t.container).isEmpty := by
  unfold WrapperType.isTopLevel
  cases t.container <;> rfl

/-- A name without a sibling of that name. -/
lemma ne_of_find?_eq_none {c : Container} {name : String} (h : m.find? c name = none) {i : Nat}
    {t : WrapperType} (ht : m.types[i]? = some t) (hc : t.container = c) : t.name ≠ name := by
  intro hname
  have hmem : (i, t) ∈ m.children c := mem_children.2 ⟨ht, hc⟩
  simp only [find?, Option.map_eq_none_iff, List.find?_eq_none] at h
  exact h (i, t) hmem (by simpa using hname)

/-- A type under a name that is free keeps names apart. -/
lemma WellNamed.append (hm : m.WellNamed) (hlayered : m.Layered) (happend : m'.types = m.types ++ [new])
    (hreserved : m'.reservedTypes = m.reservedTypes) (hcontains : m.Contains new.container)
    (hfree : m.isUnavailable new.container new.name = false) (hsingle : m.find? new.container new.name = none) :
    m'.WellNamed := by
  simp only [isUnavailable, Bool.or_eq_false_iff, List.any_eq_false, Bool.and_eq_true, beq_iff_eq,
    decide_eq_true_eq, List.contains_eq_mem, decide_eq_false_iff_not] at hfree
  obtain ⟨⟨hunreserved, hlevel⟩, haround⟩ := hfree
  have mem_cases {t : WrapperType} (ht : t ∈ m'.types) : t ∈ m.types ∨ t = new := by
    rw [happend] at ht
    simpa using ht
  constructor
  · intro i j t u ht hu hcontainer hname
    rcases getElem?_of_append happend ht with ht | ⟨rfl, rfl⟩ <;>
      rcases getElem?_of_append happend hu with hu | ⟨rfl, rfl⟩
    · exact hm.siblings ht hu hcontainer hname
    · exact (ne_of_find?_eq_none hsingle ht hcontainer hname).elim
    · exact (ne_of_find?_eq_none hsingle hu hcontainer.symm hname.symm).elim
    · rfl
  · intro i j t u ht hu hencloses
    rcases getElem?_of_append happend hu with hold | ⟨rfl, rfl⟩
    · have hencloses' := hlayered.encloses_of_append happend (lt_of_getElem? hold) hencloses
      rcases getElem?_of_append happend ht with ht | ⟨rfl, -⟩
      · exact hm.enclosing ht hold hencloses'
      · have hlt := hlayered.lt_of_encloses hencloses'
        have hbound := lt_of_getElem? hold
        omega
    · have hlt := (hlayered.append happend hcontains).lt_of_encloses hencloses
      rcases getElem?_of_append happend ht with ht | ⟨rfl, -⟩
      · rw [← nameOf_eq ht]
        exact haround i (hlayered.mem_around_of_append happend hcontains hencloses)
      · omega
  · intro t ht u hu htop hnested hname
    rcases mem_cases ht with ht | rfl <;> rcases mem_cases hu with hu | rfl
    · exact hm.levels t ht u hu htop hnested hname
    · refine hlevel t ht ⟨?_, hname⟩
      rw [← isTopLevel_eq_isEmpty_around, hnested, htop]
      rfl
    · refine hlevel u hu ⟨?_, hname.symm⟩
      rw [← isTopLevel_eq_isEmpty_around, hnested, htop]
      rfl
    · simp [htop] at hnested
  · intro t ht
    rw [hreserved]
    rcases mem_cases ht with ht | rfl
    · exact hm.reserved t ht
    · exact hunreserved

end Append

end Model

namespace Drafting

/-! ## The invariant of drafting -/

/-- The names of types are apart, and stay so: each type lies behind those around it, and drafts know types that
there are. -/
structure NamesApart (d : Drafting) : Prop where
  sound : d.Sound
  named : d.model.WellNamed
  layered : d.model.Layered

lemma Sound.contains {s : Setting} {d : Drafting} (h : d.Sound) {c : Container} (hadmits : d.Admits s c) :
    d.model.Contains c := by
  intro o hc
  rcases hadmits with rfl | ⟨x, hx, t, ht, rfl⟩
  · simp at hc
  · obtain rfl : t = o := by
      simpa using hc
    exact h.typed x hx t ht

/-- Every change keeps names apart. -/
theorem Step.namesApart {s : Setting} {d d' : Drafting} (h : Step s d d') (hd : d.NamesApart) :
    d'.NamesApart := by
  have hsound := h.sound hd.sound
  cases h with
  | declare doc found undeclared admitted spelled free single =>
    have hcontains := hd.sound.contains admitted
    exact ⟨hsound, hd.named.append hd.layered rfl rfl hcontains free single, hd.layered.append rfl hcontains⟩
  | extend same => exact ⟨hsound, hd.named.update same, hd.layered.update same⟩
  | _ => exact ⟨hsound, hd.named, hd.layered⟩

theorem Steps.namesApart {s : Setting} {d d' : Drafting} (h : Steps s d d') (hd : d.NamesApart) :
    d'.NamesApart := by
  induction h with
  | refl => exact hd
  | tail _ step ih => exact step.namesApart ih

lemma Steps.reservedTypes {s : Setting} {d d' : Drafting} (h : Steps s d d') :
    d'.model.reservedTypes = d.model.reservedTypes := by
  induction h with
  | refl => rfl
  | tail _ step ih =>
    rw [← ih]
    cases step <;> rfl

end Drafting

/-! ## Calls

Whoever has a pass may ask it for drafts in any order, and go on after a failure. -/

namespace Drafting

/-- What can be asked of a pass. -/
inductive Call
  /-- A filled draft of a node. -/
  | complete (n : SchemaNode)
  /-- A draft of a node. -/
  | declare (n : SchemaNode)
  | finish

def Call.steps (s : Setting) : Call → DraftM Unit
  | .complete n => discard (Drafting.complete s n)
  | .declare n => discard (Drafting.declare s n)
  | .finish => Drafting.finish s

/-- The state behind a call, whether it succeeds or fails. -/
def afterCall (s : Setting) (d : Drafting) (c : Call) : Drafting :=
  (outcome (c.steps s) d).2

/-- The state behind calls. -/
def afterCalls (s : Setting) (d : Drafting) (calls : List Call) : Drafting :=
  calls.foldl (afterCall s) d

lemma steps_afterCall (s : Setting) (d : Drafting) (c : Call) : Steps s d (afterCall s d c) := by
  cases c with
  | complete n => exact (leads_complete n).bind (fun _ => leads_pure _) d
  | declare n => exact (leads_declare s n).bind (fun _ => leads_pure _) d
  | finish => exact leads_finish d

lemma steps_afterCalls (s : Setting) (d : Drafting) (calls : List Call) : Steps s d (afterCalls s d calls) := by
  induction calls generalizing d with
  | nil => exact .refl
  | cons c calls ih => exact (steps_afterCall s d c).trans (ih _)

/-- In a model without types there is nothing to keep apart. -/
lemma namesApart_start {store : Store} {model : Model} (h : model.types = []) :
    (start store model).NamesApart := by
  have none {i : TypeId} {t : WrapperType} (ht : (start store model).model.types[i]? = some t) : False := by
    simp [start, h] at ht
  refine ⟨sound_start store model, ⟨?_, ?_, ?_, ?_⟩, ?_⟩
  · exact fun _ _ _ _ ht => (none ht).elim
  · exact fun _ _ _ _ ht => (none ht).elim
  · simp [start, h]
  · simp [start, h]
  · intro i o ho
    obtain ⟨t, ht, -⟩ := Model.outer?_eq_some.1 ho
    exact (none ht).elim

lemma types_beginPass (loader : Loader) (config : Config) (l : Language) (namespaceName : String)
    (store : Store) : (beginPass loader config l namespaceName store).2.model.types = [] := by
  cases l <;> rfl

lemma reservedTypes_beginPass (loader : Loader) (config : Config) (l : Language) (namespaceName : String)
    (store : Store) :
    (beginPass loader config l namespaceName store).2.model.reservedTypes = l.model.reservedTypes := by
  cases l <;> rfl

/-- Whatever is asked of a pass and whatever fails on the way, the names of its types are apart, and none is
reserved in the language. -/
theorem wellNamed_afterCalls (loader : Loader) (config : Config) (l : Language) (namespaceName : String)
    (store : Store) (calls : List Call) :
    let (s, d) := beginPass loader config l namespaceName store
    (afterCalls s d calls).model.WellNamed ∧
      (afterCalls s d calls).model.reservedTypes = l.model.reservedTypes := by
  have hsteps := steps_afterCalls (beginPass loader config l namespaceName store).1
    (beginPass loader config l namespaceName store).2 calls
  refine ⟨?_, ?_⟩
  · refine (hsteps.namesApart ?_).named
    exact namesApart_start (types_beginPass loader config l namespaceName store)
  · exact hsteps.reservedTypes.trans (reservedTypes_beginPass loader config l namespaceName store)

end Drafting

end SchemaAccessors
