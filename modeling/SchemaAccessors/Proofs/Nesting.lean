import SchemaAccessors.Proofs.Printing
import SchemaAccessors.Proofs.Scoping

/-!
# Trees of types

Rendering goes through trees that are cut out of the list of types, down to a depth that the number of types bounds.
Types lie behind the types they are inside of, so no branch is that long and nothing is cut off: below each type stand
the types that were declared in it, in the order of declaration. Where all top-level types are in one namespace, its
trees hold each type in exactly one place.
-/

namespace SchemaAccessors

namespace TypeTree

/-- The trees below the top of a tree. -/
def branches : TypeTree → List TypeTree
  | .node _ _ inner => inner

mutual

/-- The type of a tree and the types inside it, by their places in the order of declaration. -/
def ids : TypeTree → List TypeId
  | .node id _ inner => id :: allIds inner

def allIds : List TypeTree → List TypeId
  | [] => []
  | tree :: rest => tree.ids ++ allIds rest

end

lemma ids_eq (tree : TypeTree) : tree.ids = tree.root.1 :: allIds tree.branches := by
  cases tree
  rfl

lemma allIds_eq_flatMap (trees : List TypeTree) : allIds trees = trees.flatMap ids := by
  induction trees with
  | nil => rfl
  | cons tree rest ih => rw [allIds, ih, List.flatMap_cons]

end TypeTree

namespace Model

/-- Trees hold the types in a container, all of them and in the order of declaration, and below each type the types
inside it in the same way. -/
inductive Nests (m : Model) : Container → List TypeTree → Prop
  | of_branches {c : Container} {trees : List TypeTree} (roots : trees.map TypeTree.root = m.children c)
      (branches : ∀ tree ∈ trees, m.Nests (.inside tree.root.1) tree.branches) : m.Nests c trees

/-- The types in a container come in the order of declaration. -/
lemma pairwise_lt_children (m : Model) (c : Container) : ((m.children c).map (·.1)).Pairwise (· < ·) := by
  have hids : (m.children c).map (·.1) = (m.types.zipIdx.filter (·.1.container = c)).map (·.2) := by
    rw [children, List.map_map]
    rfl
  rw [hids]
  apply List.Pairwise.sublist (List.filter_sublist.map _)
  rw [List.zipIdx_map_snd]
  exact List.pairwise_lt_range'

/-- No type is twice in a container. -/
lemma nodup_children (m : Model) (c : Container) : ((m.children c).map (·.1)).Nodup :=
  (m.pairwise_lt_children c).imp Nat.ne_of_lt

variable {m : Model}

/-- Trees beside one another have different names. -/
lemma Nests.nodup_names (hm : m.WellNamed) {c : Container} {trees : List TypeTree} (h : m.Nests c trees) :
    (trees.map (·.root.2.name)).Nodup := by
  obtain ⟨roots, -⟩ := h
  have hnames : trees.map (·.root.2.name) = (m.children c).map (·.2.name) := by
    rw [← roots, List.map_map]
    rfl
  rw [hnames]
  refine List.Nodup.map_on ?_ (List.Nodup.of_map _ (m.nodup_children c))
  rintro ⟨i, t⟩ hi ⟨j, u⟩ hj hname
  obtain ⟨ht, htc⟩ := mem_children.1 hi
  obtain ⟨hu, huc⟩ := mem_children.1 hj
  obtain rfl : i = j := hm.siblings ht hu (htc.trans huc.symm) hname
  rw [Option.some.inj (ht.symm.trans hu)]

/-- No branch of a layered model is cut off if there is depth enough for all types behind the first in a container. -/
lemma Layered.nests_treesFrom (hm : m.Layered) {fuel : Nat} {c : Container}
    (hfuel : ∀ id t, m.types[id]? = some t → t.container = c → m.types.length ≤ fuel + id) :
    m.Nests c (m.treesFrom fuel c) := by
  induction fuel generalizing c with
  | zero =>
    have hnone : m.children c = [] := by
      rw [List.eq_nil_iff_forall_not_mem]
      rintro ⟨id, t⟩ hchild
      obtain ⟨ht, hc⟩ := mem_children.1 hchild
      have hdepth := hfuel id t ht hc
      have hlt := lt_of_getElem? ht
      omega
    exact .of_branches hnone.symm fun _ htree => (List.not_mem_nil htree).elim
  | succ fuel ih =>
    refine .of_branches ?_ fun tree htree => ?_
    · rw [treesFrom, List.map_map]
      exact List.map_id _
    · obtain ⟨⟨id, t⟩, hchild, rfl⟩ := List.mem_map.1 htree
      obtain ⟨ht, hc⟩ := mem_children.1 hchild
      have hdepth := hfuel id t ht hc
      apply ih
      intro inner u hu hinside
      have hlt : id < inner := hm (outer?_eq_some.2 ⟨u, hu, hinside⟩)
      have hbehind := Nat.succ_le_of_lt hlt
      omega

/-- The trees of a namespace of a layered model are whole. -/
lemma Layered.nests_trees (hm : m.Layered) (namespaceIndex : Nat) :
    m.Nests (.top namespaceIndex) (m.trees namespaceIndex) :=
  hm.nests_treesFrom fun _ _ _ _ => Nat.le_add_right _ _

/-! ## How often a type occurs -/

/-- In how many places trees hold the type around another. -/
def occurrencesAround (trees : List TypeTree) : Container → Nat
  | .top _ => 0
  | .inside outer => (TypeTree.allIds trees).count outer

lemma count_roots {c : Container} {trees : List TypeTree} (h : trees.map TypeTree.root = m.children c) {id : TypeId}
    {t : WrapperType} (ht : m.types[id]? = some t) :
    (trees.map (·.root.1)).count id = if t.container = c then 1 else 0 := by
  have hroots : trees.map (·.root.1) = (m.children c).map (·.1) := by
    rw [← h, List.map_map]
    rfl
  rw [hroots]
  by_cases hc : t.container = c
  · rw [if_pos hc]
    apply List.count_eq_one_of_mem (m.nodup_children c)
    exact List.mem_map_of_mem (mem_children.2 ⟨ht, hc⟩)
  · rw [if_neg hc, List.count_eq_zero]
    intro hmem
    obtain ⟨⟨id', u⟩, hchild, rfl⟩ := List.mem_map.1 hmem
    obtain ⟨hu, hcontainer⟩ := mem_children.1 hchild
    obtain rfl : t = u := Option.some.inj (ht.symm.trans hu)
    exact hc hcontainer

/-- A type occurs once among the types of its container, and once for each place of the type around it. -/
lemma Nests.count_allIds {c : Container} {trees : List TypeTree} (h : m.Nests c trees) {id : TypeId} {t : WrapperType}
    (ht : m.types[id]? = some t) :
    (TypeTree.allIds trees).count id = (if t.container = c then 1 else 0) + occurrencesAround trees t.container := by
  induction h with
  | @of_branches c trees roots branches ih =>
    rw [← count_roots roots ht]
    clear roots
    induction trees with
    | nil => cases t.container <;> rfl
    | cons tree rest ihrest =>
      have hrest := ihrest (fun tree htree => branches tree (List.mem_cons_of_mem _ htree))
        fun tree htree => ih tree (List.mem_cons_of_mem _ htree)
      have hbranch := ih tree List.mem_cons_self
      have haround : occurrencesAround (tree :: rest) t.container =
          (if t.container = .inside tree.root.1 then 1 else 0) +
            occurrencesAround tree.branches t.container + occurrencesAround rest t.container := by
        cases t.container with
        | top k => simp [occurrencesAround]
        | inside outer =>
          simp only [occurrencesAround, TypeTree.allIds, TypeTree.ids_eq, List.count_append, List.count_cons,
            Container.inside.injEq, beq_iff_eq]
          by_cases hroot : outer = tree.root.1
          · rw [if_pos hroot, if_pos hroot.symm]
            omega
          · rw [if_neg hroot, if_neg (Ne.symm hroot)]
            omega
      rw [TypeTree.allIds, TypeTree.ids_eq, List.count_append, List.count_cons, List.map_cons, List.count_cons, haround,
        hrest, hbranch]
      omega

/-- Trees hold types of the model. -/
lemma Nests.lt_of_mem {c : Container} {trees : List TypeTree} (h : m.Nests c trees) :
    ∀ id ∈ TypeTree.allIds trees, id < m.types.length := by
  induction h with
  | @of_branches c trees roots branches ih =>
    intro id hid
    rw [TypeTree.allIds_eq_flatMap] at hid
    obtain ⟨tree, htree, hid⟩ := List.mem_flatMap.1 hid
    rw [TypeTree.ids_eq] at hid
    rcases List.mem_cons.1 hid with rfl | hid
    · have hchild : tree.root ∈ m.children c := by
        rw [← roots]
        exact List.mem_map_of_mem htree
      exact lt_of_getElem? (mem_children.1 hchild).1
    · exact ih tree htree id hid

/-- Where all top-level types are in one namespace, its trees hold each type in one place. -/
theorem Layered.perm_ids (hm : m.Layered) {namespaceIndex : Nat} (hwithin : m.Within namespaceIndex) :
    (TypeTree.allIds (m.trees namespaceIndex)).Perm (List.range m.types.length) := by
  have hnests := hm.nests_trees namespaceIndex
  have honce (id : TypeId) : ∀ t, m.types[id]? = some t → (TypeTree.allIds (m.trees namespaceIndex)).count id = 1 := by
    induction id using Nat.strong_induction_on with
    | _ id ih =>
      intro t ht
      rw [hnests.count_allIds ht]
      cases hc : t.container with
      | top k =>
        have htop : t.isTopLevel = true := by
          unfold WrapperType.isTopLevel
          rw [hc]
        rw [if_pos (hc.symm.trans (hwithin t (List.mem_of_getElem? ht) htop))]
        rfl
      | inside outer =>
        have hlt : outer < id := hm (outer?_eq_some.2 ⟨t, ht, hc⟩)
        have hknown : outer < m.types.length := hlt.trans (lt_of_getElem? ht)
        rw [if_neg nofun, occurrencesAround, ih outer hlt _ (List.getElem?_eq_getElem hknown)]
  rw [List.perm_iff_count]
  intro id
  rw [List.count_range]
  by_cases hid : id < m.types.length
  · rw [if_pos hid, honce id _ (List.getElem?_eq_getElem hid)]
  · rw [if_neg hid, List.count_eq_zero]
    exact fun hmem => hid (hnests.lt_of_mem id hmem)

end Model

end SchemaAccessors
