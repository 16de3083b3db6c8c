import SchemaAccessors.Proofs.Agreement
import SchemaAccessors.Proofs.Once

/-!
# Strict passes

A property or item that stands for no schema is passed over with a warning, and makes a pass fail instead where the
configuration is strict. Nothing else of a pass asks whether it is. So a strict pass does what the lenient one does
until that warns of an entry, and fails there.
-/

namespace SchemaAccessors

/-- The setting in which `value` says whether entries that stand for no schema are refused. -/
def Setting.withStrictness (s : Setting) (value : Json) : Setting :=
  { s with config := { s.config with strictSchemaShapes := value } }

namespace Drafting

/-! ## Steps that warn of nothing -/

section Quiet

variable {α : Type} {s : Setting}

lemma quiet_draft (id : DraftId) : Quiet (draft id) := by
  intro d
  rw [outcome_draft]

lemma quiet_onModel (change : Model → Except Failure (Model × α)) : Quiet (onModel change) := by
  intro d
  rw [outcome_onModel]
  split <;> rfl

lemma quiet_register (uri : String) (id? : Option DraftId) : Quiet (register uri id?) := by
  refine quiet_get.bind fun d => ?_
  split
  · exact (quiet_throw _).bind fun _ _ => rfl
  · exact fun _ => rfl

lemma quiet_create (n : SchemaNode) : Quiet (create n) :=
  quiet_get.bind fun _ => (quiet_register _ _).bind fun _ _ => rfl

lemma quiet_needsType (n : SchemaNode) (raw : RawKind) : Quiet (needsType s n raw) := by
  cases raw with
  | object => exact (quiet_onStore _).bind fun _ => quiet_pure _
  | _ => exact quiet_pure _

lemma quiet_declareIn {n : SchemaNode} {container : DraftM Container} (hcontainer : Quiet container) :
    Quiet (declareIn s n container) := by
  unfold declareIn
  refine quiet_get.bind fun d => ?_
  dsimp only
  split
  · exact quiet_pure _
  refine (quiet_create n).bind fun id => (quiet_needsType n _).bind fun needed => ?_
  split
  · refine hcontainer.bind fun c => (quiet_lift _).bind fun attempts => ?_
    refine (quiet_declareType _ _ _ _ _ _).bind fun type => ?_
    refine Quiet.bind (fun _ => rfl) fun _ => quiet_get.bind fun d => ?_
    exact (quiet_note rfl).bind fun _ => quiet_pure _
  · exact (quiet_note rfl).bind fun _ => quiet_pure _

theorem quiet_declare (n : SchemaNode) : Quiet (declare s n) := by
  induction n with
  | root site => exact quiet_declareIn (quiet_pure _)
  | inside parent site ih =>
    exact quiet_declareIn (ih.bind fun id => (quiet_draft id).bind fun x => quiet_pure _)

lemma quiet_addMethod (type : TypeId) (method : Method) : Quiet (addMethod type method) :=
  quiet_onModel _

lemma quiet_writeScaffold (type : TypeId) (raw : RawKind) : Quiet (writeScaffold type raw) := by
  rw [writeScaffold_eq]
  exact (quiet_onModel _).bind fun _ => (quiet_onModel _).bind fun _ => quiet_addMethod _ _

lemma quiet_writeProperty (type : TypeId) (raw : RawKind) (key : String) (required : Bool) (default? : Option Json)
    (x : Draft) : Quiet (writeProperty s type raw key required default? x) := by
  unfold writeProperty
  refine (quiet_lift _).bind fun attempts => (quiet_freeSuffix _ _ _ _).bind fun suffix => ?_
  refine (quiet_addMethod _ _).bind fun _ => ?_
  split
  · exact quiet_addMethod _ _
  · exact quiet_pure _

lemma quiet_writeItem (type : TypeId) (raw : RawKind) (default? : Option Json) (x : Draft) :
    Quiet (writeItem s type raw default? x) := by
  unfold writeItem
  refine quiet_get.bind fun d => (quiet_lift _).bind fun attempts => ?_
  exact (quiet_freeSuffix _ _ _ _).bind fun suffix => quiet_addMethod _ _

lemma quiet_fillSize (type : TypeId) (x : Draft) : Quiet (fillSize type x) := by
  unfold fillSize
  split
  · exact quiet_addMethod _ _
  · exact quiet_pure _

lemma quiet_bound : Quiet (bound s) := fun _ => rfl

lemma quiet_pending : Quiet pending := by
  intro d
  rw [outcome_pending_snd]

end Quiet

/-! ## Lenient and strict steps -/

/-- How steps end that fail at the first of some entries, and come to the result `r` where there are none. -/
def StopsAt {α : Type} (r : Except Failure α × Drafting) :
    List MalformedEntry → Except Failure α × Drafting → Prop
  | [], r' => r' = r
  | entry :: _, r' => r'.1 = .error (.malformedEntry entry)

/-- Where the first program succeeds, it warns of some entries and of nothing else. The second one fails at the first
of these entries, and does the same as the first program where there are none. -/
def Tightens {α : Type} (x y : DraftM α) : Prop :=
  ∀ ⦃d d' : Drafting⦄ ⦃a : α⦄, outcome x d = (.ok a, d') → ∃ entries : List MalformedEntry,
    d'.trace.warnings = d.trace.warnings ++ entries.map MalformedEntry.message ∧
      StopsAt (.ok a, d') entries (outcome y d)

section Tightens

variable {α β : Type} {s : Setting} {value : Json} {fuel : Nat}

lemma tightens_of_quiet {x : DraftM α} (h : Quiet x) : Tightens x x := by
  intro d d' a hok
  refine ⟨[], ?_, hok⟩
  rw [h.warnings hok, List.map_nil, List.append_nil]

lemma tightens_pure (a : α) : Tightens (pure a) (pure a) :=
  tightens_of_quiet (quiet_pure a)

lemma Tightens.bind {x y : DraftM α} {f g : α → DraftM β} (h : Tightens x y) (hfg : ∀ a, Tightens (f a) (g a)) :
    Tightens (x >>= f) (y >>= g) := by
  intro d d'' b hok
  obtain ⟨a, d', hx, hf⟩ := outcome_bind_eq_ok hok
  obtain ⟨entries, hwarned, hstops⟩ := h hx
  obtain ⟨entries', hwarned', hstops'⟩ := hfg a hf
  refine ⟨entries ++ entries', by rw [hwarned', hwarned, List.map_append, List.append_assoc], ?_⟩
  cases entries with
  | nil =>
    rw [outcome_bind_of_ok hstops]
    exact hstops'
  | cons entry rest =>
    have hfails : outcome y d = (.error (.malformedEntry entry), (outcome y d).2) := Prod.ext hstops rfl
    show (outcome (y >>= g) d).1 = .error (.malformedEntry entry)
    rw [outcome_bind_of_error hfails]

lemma tightens_forM {f g : α → DraftM PUnit} (hfg : ∀ a, Tightens (f a) (g a)) (xs : List α) :
    Tightens (xs.forM f) (xs.forM g) := by
  induction xs with
  | nil => exact tightens_pure _
  | cons a xs ih => exact (hfg a).bind fun _ => ih

/-- The one place where strictness is looked at. -/
lemma tightens_skip (hlenient : s.config.strictSchemaShapes.truthy = false) (hstrict : value.truthy = true)
    (entry : MalformedEntry) : Tightens (skip s entry) (skip (s.withStrictness value) entry) := by
  intro d d' a hok
  rw [skip_of_lenient hlenient] at hok
  obtain rfl : { d with trace := d.trace.push (.skipped entry) } = d' := congrArg Prod.snd hok
  refine ⟨[entry], Trace.warnings_push d.trace _, ?_⟩
  rw [skip_of_strict (s := s.withStrictness value) hstrict]
  rfl

lemma declare_withStrictness (n : SchemaNode) : declare (s.withStrictness value) n = declare s n := by
  induction n with
  | root site => rfl
  | inside parent site ih =>
    rw [declare, declare, ih]
    rfl

end Tightens

/-! ## Filling -/

section Fill

variable {s : Setting} {value : Json} {fuel : Nat}
  (hlenient : s.config.strictSchemaShapes.truthy = false) (hstrict : value.truthy = true)

/-- Filling is tightened where the setting is. -/
def FillTightens (s : Setting) (value : Json) (fuel : Nat) : Prop :=
  ∀ id, Tightens (fill s fuel id) (fill (s.withStrictness value) fuel id)

lemma tightens_drafted (hfill : FillTightens s value fuel) (n : SchemaNode) :
    Tightens (drafted s fuel n) (drafted (s.withStrictness value) fuel n) := by
  unfold drafted
  rw [declare_withStrictness]
  refine (tightens_of_quiet (quiet_declare n)).bind fun id => (hfill id).bind fun _ => ?_
  exact tightens_of_quiet (quiet_draft id)

include hlenient hstrict

lemma tightens_fillProperty (hfill : FillTightens s value fuel) (type : TypeId) (x : Draft) (p : String × Entry) :
    Tightens (fillProperty s fuel type x p) (fillProperty (s.withStrictness value) fuel type x p) := by
  obtain ⟨key, entry⟩ := p
  cases entry with
  | plain found => exact tightens_skip hlenient hstrict _
  | node n =>
    exact (tightens_drafted hfill n).bind fun y => tightens_of_quiet (quiet_writeProperty (s := s) _ _ _ _ _ y)

lemma tightens_fillItem (hfill : FillTightens s value fuel) (type : TypeId) (x : Draft) (p : Entry × Nat) :
    Tightens (fillItem s fuel type x p) (fillItem (s.withStrictness value) fuel type x p) := by
  obtain ⟨entry, position⟩ := p
  cases entry with
  | plain found => exact tightens_skip hlenient hstrict _
  | node n => exact (tightens_drafted hfill n).bind fun y => tightens_of_quiet (quiet_writeItem (s := s) _ _ _ y)

lemma tightens_fillType (hfill : FillTightens s value fuel) (type : TypeId) (x : Draft) :
    Tightens (fillType s fuel type x) (fillType (s.withStrictness value) fuel type x) := by
  unfold fillType
  refine (tightens_of_quiet (quiet_writeScaffold _ _)).bind fun _ => ?_
  refine (tightens_of_quiet (quiet_onStore _)).bind fun properties => ?_
  refine (tightens_forM (tightens_fillProperty hlenient hstrict hfill type x) _).bind fun _ => ?_
  refine (tightens_of_quiet (quiet_onStore _)).bind fun items => ?_
  refine (tightens_forM (tightens_fillItem hlenient hstrict hfill type x) _).bind fun _ => ?_
  exact tightens_of_quiet (quiet_fillSize type x)

theorem tightens_fill (fuel : Nat) : FillTightens s value fuel := by
  induction fuel with
  | zero => exact fun id => tightens_of_quiet (quiet_throw _)
  | succ fuel ih =>
    intro id
    rw [fill_succ, fill_succ]
    refine (tightens_of_quiet (quiet_draft id)).bind fun x => ?_
    split
    · exact tightens_pure _
    refine (tightens_of_quiet fun _ => rfl).bind fun _ => ?_
    unfold fillDraft
    cases x.wrapper? with
    | none => exact tightens_pure _
    | some type => exact tightens_fillType hlenient hstrict ih type x

lemma tightens_complete (n : SchemaNode) : Tightens (complete s n) (complete (s.withStrictness value) n) := by
  unfold complete
  rw [declare_withStrictness]
  refine (tightens_of_quiet (quiet_declare n)).bind fun id => (tightens_of_quiet quiet_bound).bind fun fuel => ?_
  exact (tightens_fill hlenient hstrict fuel id).bind fun _ => tightens_pure id

lemma tightens_finishOne (id : DraftId) : Tightens (finishOne s id) (finishOne (s.withStrictness value) id) := by
  refine (tightens_of_quiet (quiet_draft id)).bind fun x => (tightens_of_quiet (quiet_note rfl)).bind fun _ => ?_
  exact (tightens_of_quiet quiet_bound).bind fun fuel => tightens_fill hlenient hstrict fuel id

lemma tightens_finishIn (rounds : Nat) :
    Tightens (finishIn s rounds) (finishIn (s.withStrictness value) rounds) := by
  induction rounds with
  | zero => exact tightens_of_quiet (quiet_throw _)
  | succ rounds ih =>
    rw [finishIn_succ, finishIn_succ]
    refine (tightens_of_quiet quiet_pending).bind fun ids => ?_
    split
    · exact tightens_pure _
    · exact (tightens_forM (tightens_finishOne hlenient hstrict) ids).bind fun _ => ih

/-- A strict pass fails at the first entry that the lenient one warns of, and does the same where it warns of
none. -/
theorem tightens_pass (root : SchemaNode) : Tightens (pass s root) (pass (s.withStrictness value) root) :=
  (tightens_complete hlenient hstrict root).bind fun _ =>
    (tightens_of_quiet quiet_bound).bind fun rounds => tightens_finishIn hlenient hstrict rounds

end Fill

end Drafting

end SchemaAccessors
