import Mathlib.Tactic.Common
import SchemaAccessors.Render.Language

/-!
# References between types

The code of a class refers to other classes where it says what its members take and return, and where it makes
wrappers. `WrapperType.mentions` collects these references. They are all that there are: the code of a class is
the same for all models in which the types that it mentions have the same names.
-/

namespace SchemaAccessors

/-! ## Mentioned types -/

def TypeRef.mentions (r : TypeRef) : List TypeId :=
  r.wrapper?.toList

/-- The types that an expression makes wrappers of. -/
def Expr.mentions : Expr → List TypeId
  | .construct type argument => type :: argument.mentions
  | _ => []

def Parameter.mentions (ps : List Parameter) : List TypeId :=
  ps.flatMap (·.type.mentions)

def Method.mentions (method : Method) : List TypeId :=
  method.returns.mentions ++ Parameter.mentions method.parameters ++ method.body?.elim [] Expr.mentions

/-- The types that the code of a class refers to, without the classes inside it. -/
def WrapperType.mentions (t : WrapperType) : List TypeId :=
  t.fields.flatMap (·.type.mentions) ++ t.constructors.flatMap (Parameter.mentions ·.parameters) ++
    t.methods.flatMap Method.mentions

mutual

/-- The types that the code of a class and of the classes inside it refers to. -/
def TypeTree.mentions : TypeTree → List TypeId
  | .node _ t inner => t.mentions ++ TypeTree.allMentions inner

def TypeTree.allMentions : List TypeTree → List TypeId
  | [] => []
  | tree :: rest => tree.mentions ++ TypeTree.allMentions rest

end

/-! ## Where type names enter code -/

/-- Types have the same names in two models. -/
def Language.Agrees (l : Language) (m m' : Model) (ids : List TypeId) : Prop :=
  ∀ id ∈ ids, l.typeName m id = l.typeName m' id

section

variable {l : Language} {m m' : Model}

lemma Language.Agrees.mono {ids ids' : List TypeId} (h : l.Agrees m m' ids) (hsub : ids' ⊆ ids) :
    l.Agrees m m' ids' := fun id hid =>
  h id (hsub hid)

lemma Language.Agrees.of_flatMap {α : Type} {f : α → List TypeId} {xs : List α} {x : α}
    (h : l.Agrees m m' (xs.flatMap f)) (hx : x ∈ xs) : l.Agrees m m' (f x) := fun id hid =>
  h id (List.mem_flatMap.2 ⟨x, hx, hid⟩)

lemma Language.Agrees.append {ids ids' : List TypeId} (h : l.Agrees m m' (ids ++ ids')) :
    l.Agrees m m' ids ∧ l.Agrees m m' ids' :=
  ⟨h.mono (List.subset_append_left _ _), h.mono (List.subset_append_right _ _)⟩

/-- Steps over a list that give the same for each of its members. -/
lemma mapM_congr_left {α β : Type} {f g : α → Except Failure β} {xs : List α} (h : ∀ x ∈ xs, f x = g x) :
    xs.mapM f = xs.mapM g := by
  induction xs with
  | nil => rfl
  | cons x xs ih =>
    rw [List.mapM_cons, List.mapM_cons, h x List.mem_cons_self, ih fun y hy => h y (List.mem_cons_of_mem x hy)]

end

namespace Render.Java

variable {m m' : Model}

lemma typeText_congr {r : TypeRef} (h : Language.java.Agrees m m' r.mentions) : typeText m r = typeText m' r := by
  unfold typeText
  cases hw : r.wrapper? with
  | none => rfl
  | some id => exact h id (by simp [TypeRef.mentions, hw])

lemma expr_congr {e : Expr} (h : Language.java.Agrees m m' e.mentions) : expr m e = expr m' e := by
  induction e with
  | construct type argument ih =>
    have hname : typeName m type = typeName m' type := h type List.mem_cons_self
    rw [expr, expr, hname, ih fun id hid => h id (List.mem_cons_of_mem _ hid)]
  | _ => rfl

lemma parameters_congr {ps : List Parameter} (h : Language.java.Agrees m m' (Parameter.mentions ps)) :
    parameters m ps = parameters m' ps := by
  refine congrArg (String.intercalate ", ") (List.map_congr_left fun p hp => ?_)
  rw [typeText_congr (h.of_flatMap hp)]

lemma methodLines_congr {method : Method} (h : Language.java.Agrees m m' method.mentions) :
    methodLines m method = methodLines m' method := by
  obtain ⟨hsignature, hbody⟩ := h.append
  obtain ⟨hreturns, hparameters⟩ := hsignature.append
  unfold methodLines
  rw [typeText_congr hreturns, parameters_congr hparameters]
  cases hb : method.body? with
  | none => rfl
  | some body =>
    rw [hb] at hbody
    dsimp only
    rw [expr_congr hbody]

mutual

/-- The code of a class depends on the types that it mentions by their names only. -/
theorem classLines_congr : (tree : TypeTree) → Language.java.Agrees m m' tree.mentions →
    classLines m tree = classLines m' tree
  | .node id t inner, h => by
    obtain ⟨hown, hinner⟩ := h.append
    obtain ⟨hdata, hmethods⟩ := hown.append
    obtain ⟨hfields, hconstructors⟩ := hdata.append
    have hfieldLines : t.fields.map (fieldLine m) = t.fields.map (fieldLine m') := by
      refine List.map_congr_left fun f hf => ?_
      rw [fieldLine, fieldLine, typeText_congr (hfields.of_flatMap hf)]
    have hconstructorLines : t.constructors.map (constructorLines m t.name) =
        t.constructors.map (constructorLines m' t.name) := by
      refine List.map_congr_left fun c hc => ?_
      rw [constructorLines, constructorLines, parameters_congr (hconstructors.of_flatMap hc)]
    have hmethodLines : t.methods.mapM (methodLines m) = t.methods.mapM (methodLines m') :=
      mapM_congr_left fun method hmethod => methodLines_congr (hmethods.of_flatMap hmethod)
    rw [classLines, classLines, hfieldLines, hconstructorLines, hmethodLines, classesLines_congr inner hinner]

theorem classesLines_congr : (trees : List TypeTree) → Language.java.Agrees m m' (TypeTree.allMentions trees) →
    classesLines m trees = classesLines m' trees
  | [], _ => rfl
  | tree :: rest, h => by
    obtain ⟨hfirst, hrest⟩ := h.append
    rw [classesLines, classesLines, classLines_congr tree hfirst, classesLines_congr rest hrest]

end

end Render.Java

namespace Render.Python

variable {m m' : Model}

lemma typeText_congr {r : TypeRef} (h : Language.python.Agrees m m' r.mentions) : typeText m r = typeText m' r := by
  unfold typeText
  cases hw : r.wrapper? with
  | none => rfl
  | some id => exact h id (by simp [TypeRef.mentions, hw])

lemma expr_congr {e : Expr} (h : Language.python.Agrees m m' e.mentions) : expr m e = expr m' e := by
  induction e with
  | construct type argument ih =>
    have hname : m.qualifiedName type = m'.qualifiedName type := h type List.mem_cons_self
    rw [expr, expr, hname, ih fun id hid => h id (List.mem_cons_of_mem _ hid)]
  | property source key kind default? => cases default? <;> rfl
  | item source index kind default? => cases default? <;> rfl
  | _ => rfl

lemma parameters_congr {ps : List Parameter} (h : Language.python.Agrees m m' (Parameter.mentions ps)) :
    parameters m ps = parameters m' ps := by
  refine congrArg (fun texts => String.intercalate ", " ("self" :: texts)) (List.map_congr_left fun p hp => ?_)
  rw [parameter, parameter, typeText_congr (h.of_flatMap hp)]

lemma methodLines_congr {method : Method} (h : Language.python.Agrees m m' method.mentions) :
    methodLines m method = methodLines m' method := by
  obtain ⟨hsignature, hbody⟩ := h.append
  obtain ⟨hreturns, hparameters⟩ := hsignature.append
  unfold methodLines
  rw [typeText_congr hreturns, parameters_congr hparameters]
  cases hb : method.body? with
  | none => rfl
  | some body =>
    rw [hb] at hbody
    dsimp only
    rw [expr_congr hbody]

mutual

/-- The code of a class depends on the types that it mentions by their names only. -/
theorem classLines_congr : (tree : TypeTree) → Language.python.Agrees m m' tree.mentions →
    classLines m tree = classLines m' tree
  | .node id t inner, h => by
    obtain ⟨hown, hinner⟩ := h.append
    obtain ⟨hdata, hmethods⟩ := hown.append
    have hconstructors := hdata.append.2
    have hconstructorLines : t.constructors.map (constructorLines m) = t.constructors.map (constructorLines m') := by
      refine List.map_congr_left fun c hc => ?_
      rw [constructorLines, constructorLines, parameters_congr (hconstructors.of_flatMap hc)]
    have hmethodLines : t.methods.mapM (methodLines m) = t.methods.mapM (methodLines m') :=
      mapM_congr_left fun method hmethod => methodLines_congr (hmethods.of_flatMap hmethod)
    rw [classLines, classLines, hconstructorLines, hmethodLines, classesLines_congr inner hinner]

theorem classesLines_congr : (trees : List TypeTree) → Language.python.Agrees m m' (TypeTree.allMentions trees) →
    classesLines m trees = classesLines m' trees
  | [], _ => rfl
  | tree :: rest, h => by
    obtain ⟨hfirst, hrest⟩ := h.append
    rw [classesLines, classesLines, classLines_congr tree hfirst, classesLines_congr rest hrest]

end

end Render.Python

end SchemaAccessors
