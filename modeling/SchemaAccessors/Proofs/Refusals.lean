import SchemaAccessors.Proofs.Addresses
import SchemaAccessors.Proofs.Bounds
import SchemaAccessors.Proofs.Settled

/-!
# What reading fails of

Most of what can be wrong with documents is reported. What is not is a text that is refused as a URI, whether it
stands as the `$id` of an object or as a reference, a `type` that is refused and too long to be shown, and what a loader
fails of by itself (`Store.Defect`). A program is taken apart into what it succeeds with and what it fails of by
`Ensures`, of which each rule says what a whole program owes to its parts.
-/

namespace SchemaAccessors

/-! ## Results that are failures -/

section Results

variable {ε ε' α β γ : Type}

lemma bind_eq_error {x : Except ε α} {f : α → Except ε β} {e : ε} :
    x >>= f = .error e ↔ x = .error e ∨ ∃ a, x = .ok a ∧ f a = .error e := by
  cases x <;> simp [bind, Except.bind]

lemma mapError_eq_error {x : Except ε α} {f : ε → ε'} {e : ε'} :
    x.mapError f = .error e ↔ ∃ e', x = .error e' ∧ f e' = e := by
  cases x <;> simp [Except.mapError]

/-- What is done to a result alone cannot fail. -/
lemma bind_pure_eq_error {x : Except ε α} {f : α → β} {e : ε} :
    (x >>= fun a => pure (f a)) = .error e ↔ x = .error e := by
  cases x <;> simp [bind, Except.bind, pure, Except.pure]

lemma bind_bind_pure_eq_error {x : Except ε α} {y : Except ε β} {f : α → β → γ} {e : ε}
    (h : (x >>= fun a => y >>= fun b => pure (f a b)) = .error e) : x = .error e ∨ y = .error e := by
  rcases bind_eq_error.1 h with hx | ⟨a, -, hy⟩
  · exact .inl hx
  · exact .inr (bind_pure_eq_error.1 hy)

lemma exists_of_mapM_eq_error {f : α → Except ε β} {xs : List α} {e : ε} (h : xs.mapM f = .error e) :
    ∃ x ∈ xs, f x = .error e := by
  induction xs with
  | nil => cases h
  | cons x xs ih =>
    rw [List.mapM_cons] at h
    rcases bind_bind_pure_eq_error h with hx | hxs
    · exact ⟨x, List.mem_cons_self, hx⟩
    · obtain ⟨x', hx', hfails⟩ := ih hxs
      exact ⟨x', List.mem_cons_of_mem x hx', hfails⟩

lemma exists_of_forM_eq_error {f : α → Except ε Unit} {xs : List α} {e : ε} (h : xs.forM f = .error e) :
    ∃ x ∈ xs, f x = .error e := by
  induction xs with
  | nil => cases h
  | cons x xs ih =>
    rcases bind_eq_error.1 h with hx | ⟨-, -, hxs⟩
    · exact ⟨x, List.mem_cons_self, hx⟩
    · obtain ⟨y, hy, hfails⟩ := ih hxs
      exact ⟨y, List.mem_cons_of_mem x hy, hfails⟩

end Results

/-! ## What programs owe to their parts -/

section Ensures

variable {σ α β : Type}

/-- Steps from a state succeed as `Q` says, or fail as `E` says. -/
structure Ensures (steps : ExceptT Failure (StateM σ) α) (s : σ) (Q : α → σ → Prop) (E : Failure → σ → Prop) :
    Prop where
  succeeds : ∀ ⦃a t⦄, outcome steps s = (.ok a, t) → Q a t
  fails : ∀ ⦃e t⦄, outcome steps s = (.error e, t) → E e t

variable {x : ExceptT Failure (StateM σ) α} {f : α → ExceptT Failure (StateM σ) β} {s t : σ} {Q Q' : α → σ → Prop}
  {R : β → σ → Prop} {E E' : Failure → σ → Prop}

lemma ensures_of_ok {a : α} (h : outcome x s = (.ok a, t)) (hQ : Q a t) : Ensures x s Q E := by
  refine ⟨fun b u hok => ?_, fun e u hfails => ?_⟩
  · obtain ⟨hb, rfl⟩ := Prod.mk.inj (h.symm.trans hok)
    rwa [← Except.ok.inj hb]
  · cases (Prod.mk.inj (h.symm.trans hfails)).1

lemma ensures_of_error {e : Failure} (h : outcome x s = (.error e, t)) (hE : E e t) : Ensures x s Q E := by
  refine ⟨fun b u hok => ?_, fun e' u hfails => ?_⟩
  · cases (Prod.mk.inj (h.symm.trans hok)).1
  · obtain ⟨he, rfl⟩ := Prod.mk.inj (h.symm.trans hfails)
    rwa [← Except.error.inj he]

lemma ensures_pure {a : α} (hQ : Q a s) : Ensures (pure a) s Q E :=
  ensures_of_ok (outcome_pure a s) hQ

lemma ensures_throw {e : Failure} (hE : E e s) : Ensures (throw e) s Q E :=
  ensures_of_error (outcome_throw e s) hE

/-- A result that is given without a look at the state. -/
lemma ensures_mk_pure {r : Except Failure α} (hok : ∀ a, r = .ok a → Q a s) (herror : ∀ e, r = .error e → E e s) :
    Ensures (ExceptT.mk (pure r)) s Q E := by
  cases hr : r with
  | ok a => exact ensures_of_ok (by rw [outcome_mk_pure]) (hok a hr)
  | error e => exact ensures_of_error (by rw [outcome_mk_pure]) (herror e hr)

lemma Ensures.mono (h : Ensures x s Q E) (hQ : ∀ a t, outcome x s = (.ok a, t) → Q a t → Q' a t) :
    Ensures x s Q' E :=
  ⟨fun a t hok => hQ a t hok (h.succeeds hok), h.fails⟩

lemma Ensures.excuse (h : Ensures x s Q E) (hE : ∀ e t, E e t → E' e t) : Ensures x s Q E' :=
  ⟨h.succeeds, fun e t hfails => hE e t (h.fails hfails)⟩

lemma Ensures.of_outcome_eq {y : ExceptT Failure (StateM σ) α} (h : outcome x s = outcome y t)
    (hy : Ensures y t Q E) : Ensures x s Q E :=
  ⟨fun _ _ hok => hy.succeeds (h.symm.trans hok), fun _ _ hfails => hy.fails (h.symm.trans hfails)⟩

/-- A first half with a known result counts for nothing. -/
lemma ensures_bind_of_ok {a : α} (h : outcome x s = (.ok a, t)) (hf : Ensures (f a) t R E) : Ensures (x >>= f) s R E :=
  .of_outcome_eq (outcome_bind_of_ok h) hf

lemma Ensures.bind (hx : Ensures x s Q E) (hf : ∀ a t, outcome x s = (.ok a, t) → Q a t → Ensures (f a) t R E) :
    Ensures (x >>= f) s R E := by
  rcases h : outcome x s with ⟨e | a, t⟩
  · exact ensures_of_error (outcome_bind_of_error h) (hx.fails h)
  · exact ensures_bind_of_ok h (hf a t h (hx.succeeds h))

/-- What every step for a member keeps is kept by all of them. -/
lemma ensures_forM {g : α → ExceptT Failure (StateM σ) PUnit} {I : σ → Prop} {xs : List α}
    (step : ∀ a ∈ xs, ∀ t, I t → Ensures (g a) t (fun _ u => I u) E) (hs : I s) :
    Ensures (xs.forM g) s (fun _ t => I t) E := by
  induction xs generalizing s with
  | nil => exact ensures_pure hs
  | cons a xs ih =>
    refine (step a List.mem_cons_self s hs).bind fun _ t _ ht => ?_
    exact ih (fun b hb => step b (List.mem_cons_of_mem a hb)) ht

lemma ensures_mapM {g : α → ExceptT Failure (StateM σ) β} {I : σ → Prop} {xs : List α}
    (step : ∀ a ∈ xs, ∀ t, I t → Ensures (g a) t (fun _ u => I u) E) (hs : I s) :
    Ensures (xs.mapM g) s (fun _ t => I t) E := by
  induction xs generalizing s with
  | nil => exact ensures_pure hs
  | cons a xs ih =>
    rw [List.mapM_cons]
    refine (step a List.mem_cons_self s hs).bind fun b t _ ht => ?_
    refine (ih (fun b hb => step b (List.mem_cons_of_mem a hb)) ht).bind fun bs u _ hu => ?_
    exact ensures_pure hu

end Ensures

/-! ## Texts that are refused -/

/-- A text is refused as a reference from a base: it is none, or what it leads to cannot be divided. -/
inductive Uri.Refuses (base text : String) (fault : Uri.Fault) : Prop
  | joining (h : Uri.join base text = .error fault)
  | dividing {uri : String} (joined : Uri.join base text = .ok uri) (h : Uri.defragment uri = .error fault)

/-- In a value with a base, the `$id` of an object is refused. -/
inductive Json.Misnames : (base : String) → Json → Uri.Fault → Prop
  | here {base id : String} {ms : Members} {fault : Uri.Fault} (found : ms.get? "$id" = some (.str id))
      (refused : Uri.Refuses base id fault) : Misnames base (.obj ms) fault
  | deeper {base : String} {ms : Members} {c : Subschema} {fault : Uri.Fault} (hc : c ∈ ms.subschemas)
      (h : Misnames (ms.baseBelow base) c.value fault) : Misnames base (.obj ms) fault

/-- What is wrong with a schema is reported. -/
lemma Failure.isReported_of_family {e : Failure} (h : e.family = .schema) : e.isReported = true := by
  rw [isReported, h]

/-! ## Types that are refused -/

/-- In a schema of a value, `type` holds an integer with too many digits to be shown. -/
inductive Json.Overlong : Json → Prop
  | here {ms : Members} {value : Json} (found : ms.get? "type" = some value) (long : value.showable = false) :
      Overlong (.obj ms)
  | deeper {ms : Members} {c : Subschema} (hc : c ∈ ms.subschemas) (h : Overlong c.value) : Overlong (.obj ms)

lemma Json.showable_arr_iff {values : List Json} :
    (arr values).showable = true ↔ ∀ value ∈ values, value.showable = true := by
  show showableElements values = true ↔ _
  induction values with
  | nil => simp [showableElements]
  | cons value values ih => rw [showableElements, Bool.and_eq_true, ih, List.forall_mem_cons]

namespace Position

variable {uri : String} {ms : Members} {cause e : Failure} {value : Json}

/-- A value is refused for the cause, unless it cannot be shown. -/
lemma of_refuse_eq_error (h : refuse cause value = .error e) :
    e = cause ∨ e = .overlong .written ∧ value.showable = false := by
  have hsame := Except.error.inj h
  split at hsame
  · exact .inl hsame.symm
  · next hlong => exact .inr ⟨hsame.symm, Bool.not_eq_true _ ▸ hlong⟩

lemma of_checkKind_eq_error (h : checkKind uri value = .error e) :
    e = .unknownType uri value ∨ e = .overlong .written ∧ value.showable = false := by
  unfold checkKind at h
  split at h
  · cases h
  · exact of_refuse_eq_error h

/-- The types of a schema are refused as such, unless what `type` holds cannot be shown. -/
lemma of_checkKinds_eq_error (h : checkKinds uri ms = .error e) :
    e.family = .schema ∨ e = .overlong .written ∧ ∃ value, ms.get? "type" = some value ∧ value.showable = false := by
  unfold checkKinds at h
  split at h
  · cases h
  · cases h
  · next name hname =>
    rcases of_checkKind_eq_error h with rfl | ⟨he, hlong⟩
    · exact .inl rfl
    · exact .inr ⟨he, _, hname, hlong⟩
  · next names hnames =>
    obtain ⟨name, hmem, hname⟩ := exists_of_forM_eq_error h
    rcases of_checkKind_eq_error hname with rfl | ⟨he, hlong⟩
    · exact .inl rfl
    · refine .inr ⟨he, _, hnames, Bool.eq_false_iff.2 fun hshown => ?_⟩
      rw [Json.showable_arr_iff.1 hshown name hmem] at hlong
      cases hlong
  · next found _ _ _ hfound =>
    rcases of_refuse_eq_error h with rfl | ⟨he, hlong⟩
    · exact .inl rfl
    · exact .inr ⟨he, found, hfound, hlong⟩

/-- An object is refused for its types, or for its `$id`. -/
lemma of_enter_eq_error {p : Position} (h : p.enter ms = .error e) :
    e.family = .schema ∨ (e = .overlong .written ∧ ∃ value, ms.get? "type" = some value ∧ value.showable = false) ∨
      ∃ id fault, ms.get? "$id" = some (.str id) ∧ Uri.Refuses p.base id fault ∧ e = .badUri fault := by
  unfold enter at h
  rcases bind_eq_error.1 h with hkinds | ⟨⟨⟩, -, h⟩
  · exact (of_checkKinds_eq_error hkinds).imp id .inl
  dsimp only at h
  split at h
  · next id hfound =>
    rcases bind_eq_error.1 h with hjoin | ⟨uri, hjoin, h⟩
    · obtain ⟨fault, hfault, rfl⟩ := mapError_eq_error.1 hjoin
      exact .inr (.inr ⟨id, fault, hfound, .joining hfault, rfl⟩)
    rcases bind_eq_error.1 h with hsplit | ⟨parts, -, h⟩
    · obtain ⟨fault, hfault, rfl⟩ := mapError_eq_error.1 hsplit
      exact .inr (.inr ⟨id, fault, hfound, .dividing (mapError_eq_ok.1 hjoin) hfault, rfl⟩)
    · split at h <;> cases h
  · cases h

end Position

/-- A survey ends early for the types of a schema, or for an `$id` that is refused. -/
lemma cause_of_halt (p : Position) (value : Json) :
    ∀ halt, (survey p value).halt? = some halt →
      halt.cause.family = .schema ∨ (halt.cause = .overlong .written ∧ value.Overlong) ∨
        ∃ fault, value.Misnames p.base fault ∧ halt.cause = .badUri fault := by
  induction p, value using survey_induction with
  | plain p value h => simp [survey_plain h]
  | object p ms ih =>
    intro halt hhalt
    cases h : p.enter ms with
    | error cause =>
      obtain rfl : ⟨p.path, cause⟩ = halt := by
        simpa [survey_refused h] using hhalt
      rcases Position.of_enter_eq_error h with hfamily | ⟨hcause, value, hfound, hlong⟩ |
        ⟨id, fault, hfound, hrefused, hcause⟩
      · exact .inl hfamily
      · exact .inr (.inl ⟨hcause, .here hfound hlong⟩)
      · exact .inr (.inr ⟨fault, .here hfound hrefused, hcause⟩)
    | ok entered =>
      obtain ⟨n, addresses⟩ := entered
      rw [survey_entered h] at hhalt
      rcases Survey.halt?_andThen_eq_some hhalt with hnone | hparts
      · cases hnone
      obtain ⟨part, hpart, hcause⟩ := Survey.halt?_sequence_eq_some hparts
      obtain ⟨c, hc, rfl⟩ := List.mem_map.1 hpart
      rcases ih c hc _ halt hcause with hfamily | ⟨hwritten, hlong⟩ | ⟨fault, hmisnames, hfault⟩
      · exact .inl hfamily
      · exact .inr (.inl ⟨hwritten, .deeper hc hlong⟩)
      · rw [Position.below, (Position.enter_base h).1] at hmisnames
        exact .inr (.inr ⟨fault, .deeper hc hmisnames, hfault⟩)

/-! ## What reading fails of -/

namespace Store

/-- What is not reported: a `type` in the documents that is refused and cannot be shown, a text in them that is refused
as a URI, or what the loader fails of when it is asked for the document that a reference leads to. -/
inductive Defect (loader : Loader) (s : Store) : Failure → Prop
  | declaration {load : Load} {document : Json} (loaded : load ∈ s.loads)
      (surveyed : load.survey = survey (.root load.uri) document) (overlong : document.Overlong) :
      Defect loader s (.overlong .written)
  | identifier {load : Load} {document : Json} {fault : Uri.Fault} (loaded : load ∈ s.loads)
      (surveyed : load.survey = survey (.root load.uri) document) (misnames : document.Misnames load.uri fault) :
      Defect loader s (.badUri fault)
  | reference {n : SchemaNode} {ref : String} {fault : Uri.Fault} (known : n ∈ s.nodes) (refers : n.ref? = some ref)
      (refused : Uri.Refuses n.base ref fault) : Defect loader s (.badUri fault)
  | supply {n : SchemaNode} {ref target uri fragment : String} {e : Failure} (known : n ∈ s.nodes)
      (refers : n.ref? = some ref) (joined : Uri.join n.base ref = .ok target)
      (divided : Uri.defragment target = .ok (uri, fragment)) (fails : loader.fetch uri = .error e) : Defect loader s e

/-- What reading may fail of. -/
inductive MayFail (loader : Loader) (e : Failure) (s : Store) : Prop
  | reported (h : e.isReported = true)
  | bounded (h : e = .exhausted)
  | defect (h : s.Defect loader e)

variable {loader : Loader} {s : Store}

lemma Intact.exists_at?_of_hasLoaded (hs : s.Intact) {uri : String} (h : s.hasLoaded uri = true) :
    ∃ root, s.at? (uri, []) = some root := by
  rw [hasLoaded, List.any_eq_true] at h
  obtain ⟨load, hl, huri⟩ := h
  obtain ⟨members, hsurvey⟩ := hs.genuine load hl
  have hhalt := hs.whole load hl
  rw [hsurvey] at hhalt
  obtain ⟨p, hp, haddress⟩ := exists_place_of_root hhalt
  rw [← hsurvey] at hp
  rw [decide_eq_true_iff] at huri
  exact isSome_at? (List.mem_flatMap.2 ⟨load, hl, hp⟩) (huri ▸ haddress)

/-- The root of a document that was loaded before is never lost where no document was refused. -/
lemma ensures_load (hs : s.Intact) {document : Json} {uri base fragment : String}
    (hsplit : Uri.defragment uri = .ok (base, fragment)) :
    Ensures (load document uri) s (fun _ _ => True) (MayFail loader) := by
  refine ⟨fun _ _ _ => trivial, fun e t h => ?_⟩
  have hloading := loading_load hsplit document s
  rw [h] at hloading
  cases hloading with
  | lost used missing =>
    obtain ⟨root, hroot⟩ := hs.exists_at?_of_hasLoaded used
    rw [hroot] at missing
    cases missing
  | refused => exact .reported rfl
  | @halted ms halt new object halts =>
    rcases cause_of_halt _ _ halt halts with hfamily | ⟨hcause, hlong⟩ | ⟨fault, hmisnames, hcause⟩
    · exact .reported (Failure.isReported_of_family hfamily)
    · rw [hcause]
      exact .defect (.declaration (List.mem_append_right _ List.mem_cons_self) rfl hlong)
    · rw [hcause]
      exact .defect (.identifier (List.mem_append_right _ List.mem_cons_self) rfl hmisnames)

lemma intact_empty : empty.Intact :=
  ⟨fun _ hl => (List.not_mem_nil hl).elim, List.nodup_nil, fun _ hl => (List.not_mem_nil hl).elim⟩

/-- A first document that is loaded gives a node of it. -/
lemma of_load_empty {document : Json} {source uri fragment : String} {e : Entry} {t : Store}
    (hsplit : Uri.defragment source = .ok (uri, fragment)) (h : outcome (load document source) empty = (.ok e, t)) :
    t.Intact ∧ ∃ n ∈ t.nodes, e = .node n := by
  have hloading := loading_load hsplit document empty
  rw [h] at hloading
  cases hloading with
  | known used => cases used
  | @loaded ms root rest new object ends begins =>
    subst object
    cases henter : (Position.root uri).enter ms with
    | error cause => simp [survey_refused henter] at ends
    | ok entered =>
      obtain ⟨n, addresses⟩ := entered
      rw [survey_entered henter] at begins
      obtain rfl : ⟨[], addresses, .node n⟩ = root := (List.cons.inj begins).1
      have hloads : empty.loads ++ [⟨uri, survey (.root uri) (.obj ms)⟩] = [⟨uri, survey (.root uri) (.obj ms)⟩] := rfl
      rw [hloads]
      refine ⟨⟨fun load hl => ⟨ms, ?_⟩, by simp, fun load hl => ?_⟩, n, ?_, rfl⟩
      · rw [List.mem_singleton.1 hl]
      · rw [List.mem_singleton.1 hl]
        exact ends
      · exact mem_nodes.2 ⟨_, List.mem_singleton_self _, node_mem_survey henter⟩

lemma ensures_ensureLoaded (hs : s.Intact) {uri : String} (huri : Uri.defragment uri = .ok (uri, "")) :
    Ensures (ensureLoaded loader uri) s (fun _ _ => True) fun e t =>
      MayFail loader e t ∨ loader.fetch uri = .error e ∧ t = s := by
  unfold ensureLoaded
  refine ensures_bind_of_ok (outcome_get s) ?_
  split
  · refine Ensures.bind (Q := fun _ t => t = s) ?_ fun document t _ ht => ?_
    · exact ensures_mk_pure (fun _ _ => rfl) fun e hfails => .inr ⟨hfails, rfl⟩
    · subst ht
      have hload : Ensures (load document uri) t (fun _ _ => True) (MayFail loader) := ensures_load hs huri
      exact (hload.excuse fun _ _ h => .inl h).bind fun _ _ _ _ => ensures_pure trivial
  · exact ensures_pure trivial

/-- A URI cannot be divided, or its document is not supplied. -/
inductive Misses (loader : Loader) (target : String) : Failure → Prop
  | divided {fault : Uri.Fault} (h : Uri.defragment target = .error fault) : Misses loader target (.badUri fault)
  | supplied {uri fragment : String} {e : Failure} (h : Uri.defragment target = .ok (uri, fragment))
      (fails : loader.fetch uri = .error e) : Misses loader target e

lemma ensures_resolve (hs : s.Intact) (target : String) :
    Ensures (resolve loader target) s (fun _ _ => True) fun e t =>
      MayFail loader e t ∨ Misses loader target e ∧ t = s := by
  unfold resolve
  refine ensures_bind_of_ok (outcome_get s) ?_
  split
  · exact ensures_pure trivial
  cases hsplit : Uri.defragment target with
  | error fault =>
    have hfails : outcome (split target) s = (.error (.badUri fault), s) := by
      rw [outcome_split, hsplit]
      rfl
    exact ensures_of_error (outcome_bind_of_error hfails) (.inr ⟨.divided hsplit, rfl⟩)
  | ok parts =>
    refine ensures_bind_of_ok (outcome_split_of_ok hsplit s) ?_
    refine Ensures.bind ((ensures_ensureLoaded hs (Uri.defragment_of_defragment hsplit)).excuse fun e t h => ?_) ?_
    · exact h.imp id fun ⟨hfails, ht⟩ => ⟨.supplied hsplit hfails, ht⟩
    intro _ t _ _
    refine ensures_bind_of_ok (outcome_get t) ?_
    dsimp only
    split
    · exact ensures_pure trivial
    · exact ensures_throw (.inl (.reported rfl))

lemma ensures_follow (hs : s.Intact) (fuel : Nat) (seen : List String) {e : Entry} (he : s.Holds e) :
    Ensures (follow loader fuel seen e) s (fun _ _ => True) (MayFail loader) := by
  induction fuel generalizing seen e s with
  | zero =>
    cases e with
    | plain value => exact follow_plain loader 0 seen value ▸ ensures_pure trivial
    | node n =>
      cases hr : n.ref? with
      | none => exact follow_of_no_ref hr ▸ ensures_pure trivial
      | some ref => exact follow_zero hr ▸ ensures_throw (.bounded rfl)
  | succ fuel ih =>
    cases e with
    | plain value => exact follow_plain loader _ seen value ▸ ensures_pure trivial
    | node n =>
      cases hr : n.ref? with
      | none => exact follow_of_no_ref hr ▸ ensures_pure trivial
      | some ref =>
        rw [follow_succ hr]
        split
        · exact ensures_throw (.reported rfl)
        refine Ensures.bind (Q := fun target t => Uri.join n.base ref = .ok target ∧ t = s) ?_ ?_
        · refine ensures_mk_pure (fun target hok => ⟨mapError_eq_ok.1 hok, rfl⟩) fun e hfails => ?_
          obtain ⟨fault, hfault, rfl⟩ := mapError_eq_error.1 hfails
          exact .defect (.reference he.mem_nodes hr (.joining hfault))
        rintro target _ - ⟨htarget, rfl⟩
        refine Ensures.bind (Q := fun _ _ => True) ?_ fun entry t hok _ => ?_
        · refine (ensures_resolve hs target).excuse fun e t hfails => ?_
          rcases hfails with hfails | ⟨hmisses, rfl⟩
          · exact hfails
          cases hmisses with
          | divided hfault => exact .defect (.reference he.mem_nodes hr (.dividing htarget hfault))
          | supplied hsplit hfails => exact .defect (.supply he.mem_nodes hr htarget hsplit hfails)
        · obtain ⟨hholds, hwhole⟩ := of_resolve_eq_ok hok
          have hreads := outcome_leads (reads_resolve loader target _) hok
          exact ih (hreads.intact hs (hwhole hs.whole)) _ hholds

lemma ensures_deref (hs : s.Intact) {e : Entry} (he : s.Holds e) :
    Ensures (deref loader e) s (fun _ t => t.Intact ∧ Reads loader s t) (MayFail loader) := by
  unfold deref
  refine ensures_bind_of_ok (outcome_get s) ?_
  refine (ensures_follow hs _ [] he).mono fun _ t hok _ => ?_
  have hreads := outcome_leads (reads_follow loader _ [] e s) hok
  exact ⟨hreads.intact hs ((of_follow_eq_ok hok).2 hs.whole), hreads⟩

/-- What properties stand for is found in a store without refused documents, unless there is a defect. -/
theorem ensures_properties (hs : s.Intact) (n : SchemaNode) :
    Ensures (properties loader n) s (fun _ t => t.Intact) (MayFail loader) := by
  refine ensures_bind_of_ok (outcome_get s) ?_
  refine Ensures.mono (ensures_mapM (I := fun t => t.Intact ∧ Reads loader s t) (fun p hp t ht => ?_) ⟨hs, .refl⟩)
    fun _ _ _ h => h.1
  refine (ensures_deref ht.1 (ht.2.holds (holds_of_mem_propertyEntries hp))).bind fun e u _ hu => ?_
  exact ensures_pure ⟨hu.1, ht.2.trans hu.2⟩

theorem ensures_items (hs : s.Intact) (n : SchemaNode) :
    Ensures (items loader n) s (fun _ t => t.Intact) (MayFail loader) := by
  refine ensures_bind_of_ok (outcome_get s) ?_
  refine Ensures.mono (ensures_mapM (I := fun t => t.Intact ∧ Reads loader s t) (fun e he t ht => ?_) ⟨hs, .refl⟩)
    fun _ _ _ h => h.1
  exact (ensures_deref ht.1 (ht.2.holds (holds_of_mem_itemEntries he))).mono
    fun _ _ _ hu => ⟨hu.1, ht.2.trans hu.2⟩

end Store

end SchemaAccessors
