import SchemaAccessors.Proofs.Shape

/-!
# What Java files show of methods

Every type of a model is in one of its trees, and every tree is made into a file. So where rendering succeeds, the code
of every method stands in a file, line by line and only indented.
-/

namespace SchemaAccessors

lemma TypeTree.exists_of_mem_allTypes {trees : List TypeTree} {t : WrapperType} (h : t ∈ TypeTree.allTypes trees) :
    ∃ tree ∈ trees, t ∈ tree.types := by
  induction trees with
  | nil => cases h
  | cons tree rest ih =>
    rcases List.mem_append.1 h with h | h
    · exact ⟨tree, List.mem_cons_self, h⟩
    · obtain ⟨tree', htree', h⟩ := ih h
      exact ⟨tree', List.mem_cons_of_mem _ htree', h⟩

/-- The trees in a container hold every type whose place they hold. -/
lemma Model.Nests.mem_allTypes {m : Model} {c : Container} {trees : List TypeTree} (h : m.Nests c trees) {id : TypeId}
    {t : WrapperType} (ht : m.types[id]? = some t) (hid : id ∈ TypeTree.allIds trees) :
    t ∈ TypeTree.allTypes trees := by
  induction h with
  | @of_branches c trees roots branches ih =>
    rw [TypeTree.allIds_eq_flatMap] at hid
    obtain ⟨tree, htree, hid⟩ := List.mem_flatMap.1 hid
    refine TypeTree.types_subset_allTypes htree ?_
    rw [TypeTree.ids_eq] at hid
    have hchild : tree.root ∈ m.children c := by
      rw [← roots]
      exact List.mem_map_of_mem htree
    have hroot := (Model.mem_children.1 hchild).1
    have hbranches := ih tree htree
    obtain ⟨i, u, inner⟩ := tree
    rcases List.mem_cons.1 hid with rfl | hid
    · obtain rfl : t = u := Option.some.inj (ht.symm.trans hroot)
      exact List.mem_cons_self
    · exact List.mem_cons_of_mem u (hbranches hid)

namespace Render

/-- A line stands in a block, with nothing or something around it. -/
def Shows (lines : List String) (line : String) : Prop :=
  ∃ shown ∈ lines, line.toList <:+: shown.toList

namespace Shows

variable {lines : List String} {line : String}

lemma of_mem (h : line ∈ lines) : Shows lines line :=
  ⟨line, h, List.infix_refl _⟩

lemma mono (h : Shows lines line) {more : List String} (hmore : lines ⊆ more) : Shows more line := by
  obtain ⟨shown, hshown, hinfix⟩ := h
  exact ⟨shown, hmore hshown, hinfix⟩

/-- A line that shows something does so in another one. -/
lemma isBlankLine_eq_false {line shown : String} (h : line.toList <:+: shown.toList)
    (hvisible : Text.isBlankLine line = false) : Text.isBlankLine shown = false := by
  rw [isBlankLine_eq, List.all_eq_false] at hvisible ⊢
  obtain ⟨c, hc, hblank⟩ := hvisible
  exact ⟨c, h.subset hc, hblank⟩

lemma indent (h : Shows lines line) (hvisible : Text.isBlankLine line = false) : Shows (Render.indent lines) line := by
  obtain ⟨shown, hshown, hinfix⟩ := h
  refine ⟨indentLine shown, List.mem_map_of_mem hshown, ?_⟩
  rw [indentLine, isBlankLine_eq_false hinfix hvisible, if_neg Bool.false_ne_true, String.toList_append]
  exact hinfix.trans (List.suffix_append _ _).isInfix

lemma dropEmptyEnd (h : Shows lines line) (hvisible : Text.isBlankLine line = false) :
    Shows (Render.dropEmptyEnd lines) line := by
  obtain ⟨shown, hshown, hinfix⟩ := h
  obtain ⟨empty, hsplit, hempty⟩ := exists_dropEmptyEnd lines
  rw [hsplit] at hshown
  rcases List.mem_append.1 hshown with hshown | hshown
  · exact ⟨shown, hshown, hinfix⟩
  · have hblank : Text.isBlankLine "" = true := isBlankLine_eq ""
    have hvisible' := isBlankLine_eq_false hinfix hvisible
    rw [hempty shown hshown, hblank] at hvisible'
    cases hvisible'

lemma spaced {blocks : List (List String)} (hblock : lines ∈ blocks) (h : Shows lines line) :
    Shows (Render.spaced blocks) line := by
  refine h.mono fun shown hshown => List.mem_flatMap.2 ⟨lines, hblock, List.mem_append_left _ hshown⟩

lemma infix_unlines (h : Shows lines line) : line.toList <:+: (unlines lines).toList := by
  obtain ⟨shown, hshown, hinfix⟩ := h
  exact hinfix.trans (Java.infix_unlines hshown)

end Shows

namespace Java

variable {m : Model}

/-- Lines show the code of a method, which can be written. -/
def ShowsMethod (m : Model) (lines : List String) (method : Method) : Prop :=
  ∃ code, methodLines m method = .ok code ∧ ∀ line ∈ code, Shows lines line

/-- No line of a method is blank. -/
lemma isBlankLine_of_methodLines {method : Method} {code : List String} (h : methodLines m method = .ok code) :
    ∀ line ∈ code, Text.isBlankLine line = false := by
  unfold methodLines at h
  split at h
  · obtain ⟨value, -, hlast⟩ := bind_eq_ok.1 h
    rw [← Except.ok.inj hlast]
    simp only [List.forall_mem_cons, List.not_mem_nil, false_imp_iff, implies_true, and_true]
    refine ⟨isBlankLine_of_mem (c := '(') ?_ (by decide), isBlankLine_of_mem (c := 'r') ?_ (by decide),
      isBlankLine_of_mem (c := '\x7d') ?_ (by decide)⟩
    · simp [toString]
    · simp [toString]
    · decide
  · cases h

lemma ShowsMethod.imp {lines more : List String} {method : Method} (h : ShowsMethod m lines method)
    (hmore : ∀ line, Text.isBlankLine line = false → Shows lines line → Shows more line) :
    ShowsMethod m more method := by
  obtain ⟨code, hcode, hshows⟩ := h
  exact ⟨code, hcode, fun line hline => hmore line (isBlankLine_of_methodLines hcode line hline) (hshows line hline)⟩

mutual

/-- The lines of a class show the methods of all types in its tree. -/
lemma showsMethod_of_classLines : (tree : TypeTree) → ∀ {lines : List String}, classLines m tree = .ok lines →
    ∀ t ∈ tree.types, ∀ method ∈ t.methods, ShowsMethod m lines method
  | .node id t inner, lines, h => by
    unfold classLines at h
    obtain ⟨methods, hmethods, h⟩ := bind_eq_ok.1 h
    obtain ⟨nested, hnested, hlast⟩ := bind_eq_ok.1 h
    intro u hu method hmethod
    have hblock : ∃ block ∈ methods ++ nested, ShowsMethod m block method := by
      rcases List.mem_cons.1 hu with rfl | hu
      · obtain ⟨block, hblock, hcode⟩ := exists_of_forall₂ (forall₂_of_mapM_eq_ok hmethods) method hmethod
        exact ⟨block, List.mem_append_left _ hblock, block, hcode, fun line => .of_mem⟩
      · obtain ⟨block, hblock, hshows⟩ := showsMethod_of_classesLines inner hnested u hu method hmethod
        exact ⟨block, List.mem_append_right _ hblock, hshows⟩
    obtain ⟨block, hblock, hshows⟩ := hblock
    rw [← Except.ok.inj hlast]
    refine hshows.imp fun line hvisible hline => ?_
    have hbody (data : List (List String)) :
        Shows (Render.indent (Render.dropEmptyEnd (Render.spaced (data ++ methods ++ nested)))) line := by
      rw [List.append_assoc]
      exact ((Shows.spaced (List.mem_append_right data hblock) hline).dropEmptyEnd hvisible).indent hvisible
    exact (hbody _).mono fun shown hshown => List.mem_append_left _ (List.mem_append_right _ hshown)

lemma showsMethod_of_classesLines : (trees : List TypeTree) → ∀ {blocks : List (List String)},
    classesLines m trees = .ok blocks →
      ∀ t ∈ TypeTree.allTypes trees, ∀ method ∈ t.methods, ∃ block ∈ blocks, ShowsMethod m block method
  | [], _, _, t, ht, _, _ => (List.not_mem_nil ht).elim
  | tree :: rest, blocks, h, t, ht, method, hmethod => by
    unfold classesLines at h
    obtain ⟨lines, hlines, h⟩ := bind_eq_ok.1 h
    obtain ⟨others, hothers, hlast⟩ := bind_eq_ok.1 h
    rw [← Except.ok.inj hlast]
    rcases List.mem_append.1 ht with ht | ht
    · exact ⟨lines, List.mem_cons_self, showsMethod_of_classLines tree hlines t ht method hmethod⟩
    · obtain ⟨block, hblock, hshows⟩ := showsMethod_of_classesLines rest hothers t ht method hmethod
      exact ⟨block, List.mem_cons_of_mem _ hblock, hshows⟩

end

/-- Where the file of a tree is written, it shows the methods of all types in the tree. -/
lemma infix_of_classLines {tree : TypeTree} {lines : List String} (h : classLines m tree = .ok lines)
    (comment package : String) :
    ∀ t ∈ tree.types, ∀ method ∈ t.methods, ∃ code, methodLines m method = .ok code ∧
      ∀ line ∈ code, line.toList <:+: (fileText comment package lines).toList := by
  intro t ht method hmethod
  obtain ⟨code, hcode, hshows⟩ := showsMethod_of_classLines tree h t ht method hmethod
  refine ⟨code, hcode, fun line hline => (hshows line hline).infix_unlines.trans ?_⟩
  rw [fileText, String.toList_append, String.toList_append]
  exact List.infix_append _ _ _

end Java

end Render

namespace Generation

section Sources

variable {g : Generation} {name : String} {root : SchemaNode} {d d' : Drafting} {files : Render.Sources}

/-- Where a generation for Java succeeds, what the file for a tree shows of each type in it is shown of every type. -/
lemma exists_file_of_types {P : WrapperType → String → Prop} (hstore : d.store.Genuine) (hroot : root ∈ d.store.nodes)
    (hok : outcome (g.sources .java name root) d = (.ok files, d'))
    (hshows : ∀ tree lines, Render.Java.classLines d'.model tree = .ok lines → ∀ comment package,
      ∀ t ∈ tree.types, P t (Render.Java.fileText comment package lines)) :
    ∀ t ∈ d'.model.types, ∃ file ∈ files, P t file.2 := by
  obtain ⟨_, namespaceName, -, hnamespaces, -, hfiles⟩ := told_of_sources hstore hroot hok
  obtain ⟨hnamed, hlayered, hwithin⟩ := laidOut_of_sources hok
  have hnests := hlayered.nests_trees 0
  obtain ⟨hmade, -⟩ := Render.Java.forall₂_of_sources (P := fun tree text => ∀ t ∈ tree.types, P t text)
    (fun tree _ lines hlines => hshows tree lines hlines _ _) hnamespaces (hnests.nodup_names hnamed) hfiles
  intro t ht
  obtain ⟨id, hid⟩ := List.getElem?_of_mem ht
  have hplace : id ∈ TypeTree.allIds (d'.model.trees 0) :=
    (hlayered.perm_ids hwithin).mem_iff.2 (List.mem_range.2 (Model.lt_of_getElem? hid))
  obtain ⟨tree, htree, hmem⟩ := TypeTree.exists_of_mem_allTypes (hnests.mem_allTypes hid hplace)
  obtain ⟨file, hfile, -, hshown⟩ := exists_of_forall₂ hmade tree htree
  exact ⟨file, hfile, hshown t hmem⟩

/-- Where a generation for Java succeeds, the code of every method of every type stands in one of its files. -/
theorem exists_file_of_sources (hstore : d.store.Genuine) (hroot : root ∈ d.store.nodes)
    (hok : outcome (g.sources .java name root) d = (.ok files, d')) :
    ∀ t ∈ d'.model.types, ∀ method ∈ t.methods, ∃ code, Render.Java.methodLines d'.model method = .ok code ∧
      ∃ file ∈ files, ∀ line ∈ code, line.toList <:+: file.2.toList := by
  intro t ht method hmethod
  obtain ⟨file, hfile, hshows⟩ := exists_file_of_types (P := fun t text => ∀ method ∈ t.methods,
      ∃ code, Render.Java.methodLines d'.model method = .ok code ∧ ∀ line ∈ code, line.toList <:+: text.toList)
    hstore hroot hok (fun tree lines hlines comment package => Render.Java.infix_of_classLines hlines comment package) t ht
  obtain ⟨code, hcode, hlines⟩ := hshows method hmethod
  exact ⟨code, hcode, file, hfile, hlines⟩

end Sources

end Generation

end SchemaAccessors
