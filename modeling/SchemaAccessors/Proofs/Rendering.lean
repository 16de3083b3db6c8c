import SchemaAccessors.Proofs.Printing
import SchemaAccessors.Proofs.Refusals
import SchemaAccessors.Render.Language

/-!
# What rendering fails of

Code is written method by method, so what a model cannot be written for is the fault of a method on one of its types.
In Python no method is at fault for anything that is not reported. In Java there is one such thing: an integer that a
method gives by itself, as a literal or as a default, may have no double-precision number near it.
-/

namespace SchemaAccessors

section Results

variable {ε α σ : Type} {e : ε}

lemma exists_of_foldlM_eq_error {f : σ → α → Except ε σ} {xs : List α} {s : σ}
    (h : xs.foldlM f s = .error e) : ∃ x ∈ xs, ∃ t, f t x = .error e := by
  induction xs generalizing s with
  | nil => cases h
  | cons x xs ih =>
    rw [List.foldlM_cons] at h
    rcases bind_eq_error.1 h with hx | ⟨t, -, hxs⟩
    · exact ⟨x, List.mem_cons_self, s, hx⟩
    · obtain ⟨x', hx', hfails⟩ := ih hxs
      exact ⟨x', List.mem_cons_of_mem x hx', hfails⟩

end Results

/-- The value that an expression gives by itself: its literal, or the default of its lookup. -/
def Expr.value? : Expr → Option Json
  | .literal value => some value
  | .property _ _ _ default? | .item _ _ _ default? => default?
  | .construct _ argument => argument.value?
  | .field _ | .presence _ _ | .length _ | .foreign _ => none

def Method.value? (method : Method) : Option Json :=
  method.body?.bind Expr.value?

/-- A method on a type of a model is at fault for something. -/
def Model.HasMethod (m : Model) (P : Method → Prop) : Prop :=
  ∃ t ∈ m.types, ∃ method ∈ t.methods, P method

namespace Render

/-! ## Python -/

namespace Python

variable {m : Model} {e : Failure}

lemma isReported_of_expr {x : Expr} (h : expr m x = .error e) : e.isReported = true := by
  induction x with
  | construct type argument ih => exact ih (bind_pure_eq_error.1 h)
  | foreign value =>
    rw [← Except.error.inj h]
    rfl
  | property f key kind default? => cases default? <;> cases h
  | item f index kind default? => cases default? <;> cases h
  | _ => cases h

lemma isReported_of_methodLines {method : Method} (h : methodLines m method = .error e) : e.isReported = true := by
  unfold methodLines at h
  split at h
  · exact isReported_of_expr (bind_pure_eq_error.1 h)
  · rw [← Except.error.inj h]
    rfl

mutual

/-- What a class cannot be written for is the fault of a method on it, or on a class inside. -/
lemma exists_of_classLines_eq_error : (tree : TypeTree) → classLines m tree = .error e →
    ∃ t ∈ tree.types, ∃ method ∈ t.methods, methodLines m method = .error e
  | .node id t inner, h => by
    unfold classLines at h
    rcases bind_bind_pure_eq_error h with hmethods | hinner
    · exact ⟨t, List.mem_cons_self, exists_of_mapM_eq_error hmethods⟩
    · obtain ⟨t', ht', hfails⟩ := exists_of_classesLines_eq_error inner hinner
      exact ⟨t', List.mem_cons_of_mem t ht', hfails⟩

lemma exists_of_classesLines_eq_error : (trees : List TypeTree) → classesLines m trees = .error e →
    ∃ t ∈ TypeTree.allTypes trees, ∃ method ∈ t.methods, methodLines m method = .error e
  | [], h => by cases h
  | tree :: rest, h => by
    unfold classesLines at h
    rcases bind_bind_pure_eq_error h with hfirst | hrest
    · obtain ⟨t, ht, hfails⟩ := exists_of_classLines_eq_error tree hfirst
      exact ⟨t, List.mem_append_left _ ht, hfails⟩
    · obtain ⟨t, ht, hfails⟩ := exists_of_classesLines_eq_error rest hrest
      exact ⟨t, List.mem_append_right _ ht, hfails⟩

end

lemma hasMethod_of_sources {comment : String} (h : sources m comment = .error e) :
    m.HasMethod fun method => methodLines m method = .error e := by
  obtain ⟨⟨name, i⟩, -, files, hmodule⟩ := exists_of_foldlM_eq_error h
  obtain ⟨t, ht, hfails⟩ := exists_of_classesLines_eq_error _ (bind_pure_eq_error.1 hmodule)
  exact ⟨t, m.types_treesFrom _ _ ht, hfails⟩

end Python

/-! ## Java -/

namespace Java

variable {m : Model} {e : Failure}

/-- An integer has no double-precision number near it, and this is what fails. -/
def Oversized (value? : Option Json) (e : Failure) : Prop :=
  ∃ n, value? = some (.int n) ∧ Binary64.ofInt? n = none ∧ e = .integerTooLarge

lemma oversized_of_nearest {n : Int} (h : nearest n = .error e) : Oversized (some (.int n)) e := by
  unfold nearest at h
  split at h
  · cases h
  · next hnone => exact ⟨n, rfl, hnone, (Except.error.inj h).symm⟩

lemma oversized_of_literal {value : Json} (h : literal value = .error e) : Oversized (some value) e := by
  unfold literal at h
  split at h
  · cases h
  · split at h
    · cases h
    split at h
    · cases h
    exact oversized_of_nearest (bind_pure_eq_error.1 h)
  · cases h
  · cases h

lemma oversized_of_literalFor {kind : RawKind} {value : Json} (h : literalFor kind value = .error e) :
    Oversized (some value) e := by
  unfold literalFor at h
  split at h
  · split at h
    · cases h
    exact oversized_of_nearest (bind_pure_eq_error.1 h)
  · split at h <;> cases h
  · exact oversized_of_literal h

lemma oversized_of_lookup {target key : String} {kind : RawKind} {default? : Option Json}
    (h : lookup target key kind default? = .error e) : Oversized default? e := by
  cases default? with
  | none => cases h
  | some value =>
    unfold lookup at h
    rcases bind_eq_error.1 h with hdefault | ⟨text, -, hlast⟩
    · exact oversized_of_literalFor hdefault
    · split at hlast <;> cases hlast

lemma oversized_of_expr {x : Expr} (h : expr m x = .error e) : e.isReported = true ∨ Oversized x.value? e := by
  induction x with
  | literal value => exact .inr (oversized_of_literal h)
  | property f key kind default? => exact .inr (oversized_of_lookup h)
  | item f index kind default? => exact .inr (oversized_of_lookup h)
  | construct type argument ih => exact ih (bind_pure_eq_error.1 h)
  | foreign value =>
    rw [← Except.error.inj h]
    exact .inl rfl
  | _ => cases h

lemma oversized_of_methodLines {method : Method} (h : methodLines m method = .error e) :
    e.isReported = true ∨ Oversized method.value? e := by
  unfold methodLines at h
  split at h
  · next body hbody =>
    rw [Method.value?, hbody]
    exact oversized_of_expr (bind_pure_eq_error.1 h)
  · rw [← Except.error.inj h]
    exact .inl rfl

mutual

lemma exists_of_classLines_eq_error : (tree : TypeTree) → classLines m tree = .error e →
    ∃ t ∈ tree.types, ∃ method ∈ t.methods, methodLines m method = .error e
  | .node id t inner, h => by
    unfold classLines at h
    rcases bind_bind_pure_eq_error h with hmethods | hinner
    · exact ⟨t, List.mem_cons_self, exists_of_mapM_eq_error hmethods⟩
    · obtain ⟨t', ht', hfails⟩ := exists_of_classesLines_eq_error inner hinner
      exact ⟨t', List.mem_cons_of_mem t ht', hfails⟩

lemma exists_of_classesLines_eq_error : (trees : List TypeTree) → classesLines m trees = .error e →
    ∃ t ∈ TypeTree.allTypes trees, ∃ method ∈ t.methods, methodLines m method = .error e
  | [], h => by cases h
  | tree :: rest, h => by
    unfold classesLines at h
    rcases bind_bind_pure_eq_error h with hfirst | hrest
    · obtain ⟨t, ht, hfails⟩ := exists_of_classLines_eq_error tree hfirst
      exact ⟨t, List.mem_append_left _ ht, hfails⟩
    · obtain ⟨t, ht, hfails⟩ := exists_of_classesLines_eq_error rest hrest
      exact ⟨t, List.mem_append_right _ ht, hfails⟩

end

lemma hasMethod_of_sources {comment : String} (h : sources m comment = .error e) :
    m.HasMethod fun method => methodLines m method = .error e := by
  obtain ⟨⟨package, i⟩, -, files, hpackage⟩ := exists_of_foldlM_eq_error h
  obtain ⟨⟨id, t, inner⟩, htree, files', hfile⟩ := exists_of_foldlM_eq_error hpackage
  obtain ⟨t', ht', hfails⟩ := exists_of_classLines_eq_error _ (bind_pure_eq_error.1 hfile)
  exact ⟨t', m.types_treesFrom _ _ (TypeTree.types_subset_allTypes htree ht'), hfails⟩

end Java

end Render

/-- Rendering fails of what is reported, or in Java of an integer that a method gives. -/
theorem Language.of_sources_eq_error {l : Language} {m : Model} {comment : String} {e : Failure}
    (h : l.sources m comment = .error e) :
    e.isReported = true ∨ l = .java ∧ m.HasMethod fun method => Render.Java.Oversized method.value? e := by
  cases l with
  | python =>
    obtain ⟨t, -, method, -, hfails⟩ := Render.Python.hasMethod_of_sources h
    exact .inl (Render.Python.isReported_of_methodLines hfails)
  | java =>
    obtain ⟨t, ht, method, hmethod, hfails⟩ := Render.Java.hasMethod_of_sources h
    exact (Render.Java.oversized_of_methodLines hfails).imp id fun hlarge => ⟨rfl, t, ht, method, hmethod, hlarge⟩

end SchemaAccessors
