import Mathlib.Data.List.Forall2
import Mathlib.Logic.Relation
import Mathlib.Tactic.Common
import SchemaAccessors.Failure

/-!
# What steps come to

Steps on a store and steps of drafting are programs of one kind: they have a state, they may fail, and a
failure keeps the state that it is met in. This file opens such programs. `outcome` runs one from a state;
`outcome_bind` takes a program apart at a bind, and everything else about whole programs is put together from
that: what they lead to on every path, and what they go through where they succeed.
-/

namespace SchemaAccessors

/-! ## Results -/

lemma bind_eq_ok {ε α β : Type} {x : Except ε α} {f : α → Except ε β} {b : β} :
    x >>= f = .ok b ↔ ∃ a, x = .ok a ∧ f a = .ok b := by
  cases x <;> simp [bind, Except.bind]

lemma map_eq_ok {ε α β : Type} {x : Except ε α} {f : α → β} {b : β} :
    x.map f = .ok b ↔ ∃ a, x = .ok a ∧ f a = b := by
  cases x <;> simp [Except.map]

lemma mapError_eq_ok {ε ε' α : Type} {x : Except ε α} {f : ε → ε'} {a : α} :
    x.mapError f = .ok a ↔ x = .ok a := by
  cases x <;> simp [Except.mapError]

/-- The results for a list are those for its members, one for each. -/
lemma forall₂_of_mapM_eq_ok {ε α β : Type} {f : α → Except ε β} {xs : List α} {ys : List β}
    (h : xs.mapM f = .ok ys) : List.Forall₂ (fun x y => f x = .ok y) xs ys := by
  induction xs generalizing ys with
  | nil =>
    obtain rfl : [] = ys := by simpa [pure, Except.pure] using h
    exact .nil
  | cons x xs ih =>
    rw [List.mapM_cons] at h
    obtain ⟨y, hx, h⟩ := bind_eq_ok.1 h
    obtain ⟨ys', hxs, hlast⟩ := bind_eq_ok.1 h
    obtain rfl : y :: ys' = ys := Except.ok.inj hlast
    exact .cons hx (ih hxs)

/-- Every member of a list has a partner. -/
lemma exists_of_forall₂ {α β : Type} {R : α → β → Prop} {xs : List α} {ys : List β} (h : List.Forall₂ R xs ys) :
    ∀ x ∈ xs, ∃ y ∈ ys, R x y := by
  intro x hx
  induction h with
  | nil => cases hx
  | @cons x' y xs ys hy _ ih =>
    rcases List.mem_cons.1 hx with rfl | hx
    · exact ⟨y, List.mem_cons_self, hy⟩
    · obtain ⟨y', hy', hx⟩ := ih hx
      exact ⟨y', List.mem_cons_of_mem y hy', hx⟩

/-- Every result for a list is the result for a member. -/
lemma exists_of_mapM_eq_ok {ε α β : Type} {f : α → Except ε β} {xs : List α} {ys : List β}
    (h : xs.mapM f = .ok ys) : ∀ y ∈ ys, ∃ x ∈ xs, f x = .ok y :=
  exists_of_forall₂ (forall₂_of_mapM_eq_ok h).flip

/-- What every step over a list keeps holds at the end. -/
lemma foldlM_eq_ok_induction {ε α β : Type} {P : β → Prop} {f : β → α → Except ε β} {xs : List α} {b b' : β}
    (step : ∀ x ∈ xs, ∀ b b', P b → f b x = .ok b' → P b') (hb : P b) (h : xs.foldlM f b = .ok b') : P b' := by
  induction xs generalizing b with
  | nil =>
    obtain rfl : b = b' := by simpa [pure, Except.pure] using h
    exact hb
  | cons x xs ih =>
    rw [List.foldlM_cons] at h
    obtain ⟨c, hx, h⟩ := bind_eq_ok.1 h
    exact ih (fun y hy => step y (List.mem_cons_of_mem x hy)) (step x List.mem_cons_self b c hb hx) h

/-! ## Results of steps -/

variable {σ α β : Type}

/-- The result of steps that are taken from a state, and the state they leave behind. -/
def outcome (steps : ExceptT Failure (StateM σ) α) (s : σ) : Except Failure α × σ :=
  steps.run.run s

@[simp] lemma outcome_pure (a : α) (s : σ) :
    outcome (pure a : ExceptT Failure (StateM σ) α) s = (.ok a, s) := rfl

@[simp] lemma outcome_throw (e : Failure) (s : σ) :
    outcome (throw e : ExceptT Failure (StateM σ) α) s = (.error e, s) := rfl

@[simp] lemma outcome_get (s : σ) :
    outcome (get : ExceptT Failure (StateM σ) σ) s = (.ok s, s) := rfl

@[simp] lemma outcome_set (s t : σ) :
    outcome (set t : ExceptT Failure (StateM σ) PUnit) s = (.ok ⟨⟩, t) := rfl

@[simp] lemma outcome_modify (f : σ → σ) (s : σ) :
    outcome (modify f : ExceptT Failure (StateM σ) PUnit) s = (.ok ⟨⟩, f s) := rfl

/-- A result that is given without a look at the state. -/
@[simp] lemma outcome_mk_pure (r : Except Failure α) (s : σ) :
    outcome (ExceptT.mk (pure r) : ExceptT Failure (StateM σ) α) s = (r, s) := rfl

lemma outcome_bind (x : ExceptT Failure (StateM σ) α) (f : α → ExceptT Failure (StateM σ) β) (s : σ) :
    outcome (x >>= f) s =
      match outcome x s with
      | (.ok a, t) => outcome (f a) t
      | (.error e, t) => (.error e, t) := by
  unfold outcome ExceptT.run StateT.run
  simp only [bind, ExceptT.bind, ExceptT.mk, StateT.bind]
  rcases x s with ⟨_ | a, t⟩ <;> rfl

/-- Whether steps succeed can be computed. -/
lemma eq_ok_of_toBool {r : Except Failure PUnit × σ} (h : r.1.toBool = true) : r = (.ok ⟨⟩, r.2) := by
  rcases r with ⟨e | ⟨⟩, s⟩
  · simp [Except.toBool] at h
  · rfl

lemma exists_of_toBool {x : ExceptT Failure (StateM σ) α} {s : σ} (h : (outcome x s).1.toBool = true) :
    ∃ a, outcome x s = (.ok a, (outcome x s).2) := by
  cases hresult : (outcome x s).1 with
  | ok a => exact ⟨a, Prod.ext hresult rfl⟩
  | error cause =>
    rw [hresult] at h
    cases h

/-- Steps succeed where something about their result can be computed. -/
lemma exists_of_map_toOption {x : ExceptT Failure (StateM σ) α} {f : α → β} {s : σ} {b : β}
    (h : (outcome x s).1.toOption.map f = some b) : ∃ a, outcome x s = (.ok a, (outcome x s).2) ∧ f a = b := by
  obtain ⟨a, ha, hf⟩ := Option.map_eq_some_iff.1 h
  refine ⟨a, Prod.ext ?_ rfl, hf⟩
  cases hresult : (outcome x s).1 with
  | ok a' =>
    rw [hresult] at ha
    rw [Option.some.inj ha]
  | error cause =>
    rw [hresult] at ha
    cases ha

/-! ## Paths through a bind -/

variable {x : ExceptT Failure (StateM σ) α} {f : α → ExceptT Failure (StateM σ) β} {s t u : σ}

lemma outcome_bind_of_ok {a : α} (h : outcome x s = (.ok a, t)) :
    outcome (x >>= f) s = outcome (f a) t := by
  rw [outcome_bind, h]

lemma outcome_bind_of_error {e : Failure} (h : outcome x s = (.error e, t)) :
    outcome (x >>= f) s = (.error e, t) := by
  rw [outcome_bind, h]

lemma outcome_bind_eq_ok {b : β} (h : outcome (x >>= f) s = (.ok b, u)) :
    ∃ a t, outcome x s = (.ok a, t) ∧ outcome (f a) t = (.ok b, u) := by
  rw [outcome_bind] at h
  rcases hx : outcome x s with ⟨_ | a, t⟩
  · rw [hx] at h
    simp at h
  · rw [hx] at h
    exact ⟨a, t, rfl, h⟩

/-- A relation to what steps leave behind is one to the state that they are known to end in. -/
lemma outcome_leads {R : σ → σ → Prop} {r : Except Failure α} (h : R s (outcome x s).2) (hx : outcome x s = (r, t)) :
    R s t := by
  rwa [hx] at h

/-- A relation that composes relates a state to what a bind leaves, if it does so for both halves. The second
half is only looked at where the first one succeeds. -/
lemma outcome_bind_leads {R : σ → σ → Prop} (trans : ∀ {a b c}, R a b → R b c → R a c)
    (hx : R s (outcome x s).2) (hf : ∀ a t, outcome x s = (.ok a, t) → R t (outcome (f a) t).2) :
    R s (outcome (x >>= f) s).2 := by
  rcases h : outcome x s with ⟨e | a, t⟩
  · rw [outcome_bind_of_error h]
    rwa [h] at hx
  · rw [outcome_bind_of_ok h]
    rw [h] at hx
    exact trans hx (hf a t h)

/-- A bind does not fail in some way if neither half does. -/
lemma outcome_bind_ne_error {e : Failure} (hx : (outcome x s).1 ≠ .error e)
    (hf : ∀ a t, outcome x s = (.ok a, t) → (outcome (f a) t).1 ≠ .error e) :
    (outcome (x >>= f) s).1 ≠ .error e := by
  rcases h : outcome x s with ⟨e' | a, t⟩
  · rw [outcome_bind_of_error h]
    rw [h] at hx
    simpa using hx
  · rw [outcome_bind_of_ok h]
    exact hf a t h

/-! ## Steps for each member of a list -/

section Lists

variable {g : α → ExceptT Failure (StateM σ) β} {h : α → ExceptT Failure (StateM σ) PUnit}

lemma outcome_mapM_leads {R : σ → σ → Prop} (refl : ∀ a, R a a) (trans : ∀ {a b c}, R a b → R b c → R a c)
    (xs : List α) (step : ∀ a ∈ xs, ∀ s, R s (outcome (g a) s).2) (s : σ) :
    R s (outcome (xs.mapM g) s).2 := by
  induction xs generalizing s with
  | nil => exact refl s
  | cons a xs ih =>
    rw [List.mapM_cons]
    refine outcome_bind_leads trans (step a List.mem_cons_self s) fun b t _ => ?_
    refine outcome_bind_leads trans (ih (fun a ha => step a (List.mem_cons_of_mem _ ha)) t) fun bs u _ => ?_
    exact refl u

/-- Where steps for all members succeed, those for each of them do, somewhere on the way. -/
lemma outcome_mapM_eq_ok {R : σ → σ → Prop} (refl : ∀ a, R a a) (trans : ∀ {a b c}, R a b → R b c → R a c)
    (step : ∀ a s, R s (outcome (g a) s).2) {xs : List α} {bs : List β} {s u : σ}
    (hok : outcome (xs.mapM g) s = (.ok bs, u)) :
    List.Forall₂ (fun a b => ∃ t t', R s t ∧ outcome (g a) t = (.ok b, t') ∧ R t' u) xs bs := by
  induction xs generalizing s bs with
  | nil =>
    obtain ⟨rfl, rfl⟩ : bs = [] ∧ u = s := by
      simpa [eq_comm] using hok
    exact .nil
  | cons a xs ih =>
    rw [List.mapM_cons] at hok
    obtain ⟨b, t, hb, hok⟩ := outcome_bind_eq_ok hok
    obtain ⟨bs', t', hbs, hok⟩ := outcome_bind_eq_ok hok
    obtain ⟨rfl, rfl⟩ : b :: bs' = bs ∧ t' = u := by
      simpa using hok
    have hst : R s t := outcome_leads (step a s) hb
    have htu : R t t' := outcome_leads (outcome_mapM_leads refl trans xs (fun a _ => step a) t) hbs
    refine .cons ⟨s, t, refl s, hb, htu⟩ ?_
    exact (ih hbs).imp fun a b ⟨v, v', hv, hg, hv'⟩ => ⟨v, v', trans hst hv, hg, hv'⟩

/-- What every successful step keeps is kept by all of them. -/
lemma outcome_mapM_keeps {P : σ → Prop} (step : ∀ a s b t, P s → outcome (g a) s = (.ok b, t) → P t)
    {xs : List α} {bs : List β} {s u : σ} (hok : outcome (xs.mapM g) s = (.ok bs, u)) (hs : P s) : P u := by
  induction xs generalizing s bs with
  | nil =>
    obtain rfl : s = u := congrArg Prod.snd hok
    exact hs
  | cons a xs ih =>
    rw [List.mapM_cons] at hok
    obtain ⟨b, t, hb, hrest⟩ := outcome_bind_eq_ok hok
    obtain ⟨bs', t', hbs, hlast⟩ := outcome_bind_eq_ok hrest
    obtain rfl : t' = u := congrArg Prod.snd hlast
    exact ih hbs (step a s b t hs hb)

/-- Steps for all members do not fail in some way if none of them does where all before it succeeded. -/
lemma outcome_mapM_ne_error {e : Failure} {P : σ → Prop} {xs : List α}
    (step : ∀ a ∈ xs, ∀ s, P s →
      (outcome (g a) s).1 ≠ .error e ∧ ∀ b t, outcome (g a) s = (.ok b, t) → P t) {s : σ} (hs : P s) :
    (outcome (xs.mapM g) s).1 ≠ .error e := by
  induction xs generalizing s with
  | nil => simp
  | cons a xs ih =>
    rw [List.mapM_cons]
    obtain ⟨hne, hkeeps⟩ := step a List.mem_cons_self s hs
    refine outcome_bind_ne_error hne fun b t hb => ?_
    refine outcome_bind_ne_error (ih (fun a ha => step a (List.mem_cons_of_mem _ ha)) (hkeeps b t hb)) ?_
    intro bs u _
    simp

lemma outcome_forM_cons (a : α) (xs : List α) (s : σ) :
    outcome ((a :: xs).forM h) s = outcome (h a >>= fun _ => xs.forM h) s := rfl

lemma outcome_forM_leads {R : σ → σ → Prop} (refl : ∀ a, R a a) (trans : ∀ {a b c}, R a b → R b c → R a c)
    (xs : List α) (step : ∀ a ∈ xs, ∀ s, R s (outcome (h a) s).2) (s : σ) :
    R s (outcome (xs.forM h) s).2 := by
  induction xs generalizing s with
  | nil => exact refl s
  | cons a xs ih =>
    rw [outcome_forM_cons]
    exact outcome_bind_leads trans (step a List.mem_cons_self s) fun _ t _ =>
      ih (fun a ha => step a (List.mem_cons_of_mem _ ha)) t

/-- What holds before a loop that succeeds, and is carried from one member to the next, holds after it. -/
lemma outcome_forM_induction {P : List α → σ → Prop} {xs : List α} {s u : σ}
    (start : List α)
    (step : ∀ done a t t', a ∈ xs → P done t → outcome (h a) t = (.ok ⟨⟩, t') → P (done ++ [a]) t')
    (hs : P start s) (hok : outcome (xs.forM h) s = (.ok ⟨⟩, u)) : P (start ++ xs) u := by
  induction xs generalizing s start with
  | nil =>
    obtain rfl : s = u := by
      simpa using hok
    simpa using hs
  | cons a xs ih =>
    rw [outcome_forM_cons] at hok
    obtain ⟨⟨⟩, t, ha, hok⟩ := outcome_bind_eq_ok hok
    have ht := step start a s t List.mem_cons_self hs ha
    have hrest := ih (start ++ [a]) (fun done b t t' hb => step done b t t' (List.mem_cons_of_mem _ hb)) ht hok
    simpa using hrest

end Lists

end SchemaAccessors
