import Mathlib.Tactic.Common
import SchemaAccessors.Files.Tree

/-!
# Places in file trees

What a path leads to depends on the directories of a tree only. Two relations say what an operation does to the rest:
`Spares` where nothing is changed but that directories may have been made, and `Replaces` where besides one file holds
a new content.
-/

namespace SchemaAccessors.Files.Tree

variable {t t' t'' : Tree} {place other : Location} {node : Node} {content : ByteArray} {p q : Path}

/-! ## Single places -/

lemma ne_nil_of_node?_ne (h : t.node? place ≠ some .directory) : place ≠ [] := by
  rintro rfl
  exact h rfl

lemma ne_nil_of_none (h : t.node? place = none) : place ≠ [] := by
  rintro rfl
  cases h

lemma node?_put (h : place ≠ []) :
    (t.put place node).node? other = if other = place then some node else t.node? other := by
  split_ifs with hother
  · rw [hother, node?_put_self t node h]
  · exact node?_put_of_ne t node hother

lemma node?_erase (h : place ≠ []) : (t.erase place).node? other = if other = place then none else t.node? other := by
  split_ifs with hother
  · have hgone : (t.nodes.filter (·.1 ≠ place)).lookup place = none :=
      List.lookup_eq_none_iff.2 fun n hn => by
        have hne : n.1 ≠ place := by simpa using (List.mem_filter.1 hn).2
        simpa using hne.symm
    rw [hother, node?, if_neg h]
    exact hgone
  · exact node?_erase_of_ne t hother

/-! ## Directories -/

/-- Every directory of a tree is one of another. -/
def KeepsDirectories (t t' : Tree) : Prop :=
  ∀ place, t.node? place = some .directory → t'.node? place = some .directory

lemma KeepsDirectories.trans (h : t.KeepsDirectories t') (h' : t'.KeepsDirectories t'') : t.KeepsDirectories t'' :=
  fun place hplace => h' place (h place hplace)

/-- A path leads on where it did. -/
lemma KeepsDirectories.follow {components : List String} (h : t.KeepsDirectories t')
    (hok : t.follow place components = .ok other) : t'.follow place components = .ok other := by
  induction components generalizing place with
  | nil => exact hok
  | cons c rest ih =>
    unfold Tree.follow at hok ⊢
    cases hnode : t.node? place with
    | none => simp [hnode] at hok
    | some node =>
      cases node with
      | file content => simp [hnode] at hok
      | directory =>
        simp only [hnode] at hok
        simp only [h place hnode]
        by_cases hlong : longestName < c.utf8ByteSize
        · simp [hlong] at hok
        · rw [if_neg hlong] at hok ⊢
          exact ih hok

lemma KeepsDirectories.locate (h : t.KeepsDirectories t') (hok : t.locate p = .ok place) : t'.locate p = .ok place := by
  unfold Tree.locate locateFrom at hok ⊢
  split_ifs at hok ⊢ with hlong
  exact h.follow hok

/-! ## Trees that differ in new directories -/

/-- Nothing is changed at a place, unless there is a directory where nothing was. -/
def SparesAt (t t' : Tree) (place : Location) : Prop :=
  t'.node? place = t.node? place ∨ (t.node? place = none ∧ t'.node? place = some .directory)

/-- Nothing is changed, but that there may be directories where nothing was. -/
def Spares (t t' : Tree) : Prop :=
  ∀ place, t.SparesAt t' place

lemma SparesAt.trans (h : t.SparesAt t' place) (h' : t'.SparesAt t'' place) : t.SparesAt t'' place := by
  rcases h with h | ⟨hnone, hmade⟩
  · rcases h' with h' | ⟨hnone', hmade'⟩
    · exact .inl (h'.trans h)
    · exact .inr ⟨h ▸ hnone', hmade'⟩
  · rcases h' with h' | ⟨hnone', -⟩
    · exact .inr ⟨hnone, h'.trans hmade⟩
    · simp [hmade] at hnone'

lemma SparesAt.directory (h : t.SparesAt t' place) (hplace : t.node? place = some .directory) :
    t'.node? place = some .directory := by
  rcases h with h | ⟨-, h⟩
  · exact h.trans hplace
  · exact h

lemma Spares.refl (t : Tree) : t.Spares t := fun _ => .inl rfl

lemma Spares.trans (h : t.Spares t') (h' : t'.Spares t'') : t.Spares t'' := fun place => (h place).trans (h' place)

lemma Spares.keepsDirectories (h : t.Spares t') : t.KeepsDirectories t' := fun place => (h place).directory

/-- Making directories spares everything, whether it succeeds or not. -/
lemma spares_makeFrom (made : Bool) (components : List String) :
    t.Spares (t.makeFrom place made components).1 := by
  induction components generalizing t place made with
  | nil => exact .refl t
  | cons c rest ih =>
    unfold makeFrom
    by_cases hlong : longestName < c.utf8ByteSize
    · rw [if_pos hlong]
      exact .refl t
    rw [if_neg hlong]
    dsimp only
    generalize (if c = ".." then place.dropLast else place ++ [c]) = next
    cases hnode : t.node? next with
    | none =>
      have hnext : next ≠ [] := ne_nil_of_none hnode
      have hput : t.Spares (t.put next .directory) := by
        intro other
        by_cases hother : other = next
        · exact .inr ⟨hother ▸ hnode, by rw [node?_put hnext, if_pos hother]⟩
        · exact .inl (by rw [node?_put hnext, if_neg hother])
      exact hput.trans (ih true)
    | some node =>
      cases node with
      | file content => exact .refl t
      | directory => exact ih made

lemma spares_makeDirectories (t : Tree) (p : Path) : t.Spares (t.makeDirectories p).1 := by
  unfold makeDirectories
  split_ifs
  · exact .refl t
  · exact spares_makeFrom false p.components

/-! ## Trees that differ in one file besides -/

/-- A file holds a content, and nothing else is changed, but that there may be directories where nothing was. -/
structure Replaces (t t' : Tree) (place : Location) (content : ByteArray) : Prop where
  free : t.node? place ≠ some .directory
  holds : t'.node? place = some (.file content)
  others : ∀ other, other ≠ place → t.SparesAt t' other

lemma Replaces.keepsDirectories (h : t.Replaces t' place content) : t.KeepsDirectories t' := by
  intro other hother
  refine (h.others other ?_).directory hother
  rintro rfl
  exact h.free hother

/-! ## Operations on files -/

lemma of_createFile (h : t.createFile p content = .ok t') :
    ∃ place, t.locate p = .ok place ∧ t.node? place = none ∧ t' = t.put place (.file content) := by
  unfold createFile at h
  cases hplace : t.locate p with
  | error fault => simp [hplace, bind, Except.bind] at h
  | ok place =>
    cases hnode : t.node? place with
    | some node => simp [hplace, hnode, bind, Except.bind, throw, throwThe, MonadExceptOf.throw] at h
    | none =>
      obtain rfl : t.put place (.file content) = t' := by
        simpa [hplace, hnode, bind, Except.bind, pure, Except.pure] using h
      exact ⟨place, rfl, hnode, rfl⟩

lemma removeFile_of_file (hplace : t.locate p = .ok place) (hnode : t.node? place = some (.file content)) :
    t.removeFile p = .ok (t.erase place) := by
  simp [removeFile, hplace, hnode, bind, Except.bind, pure, Except.pure]

/-- A file that takes the place of no directory leaves all directories. -/
lemma keepsDirectories_of_move {new : Location} (hnode : t.node? place = some (.file content))
    (hnew : t.node? new ≠ some .directory) : t.KeepsDirectories ((t.erase place).put new (.file content)) := by
  have hplace : place ≠ [] := ne_nil_of_node?_ne (by rw [hnode]; simp)
  intro other hother
  rw [node?_put (ne_nil_of_node?_ne hnew), if_neg, node?_erase hplace, if_neg, hother]
  · rintro rfl
    simp [hnode] at hother
  · rintro rfl
    exact hnew hother

lemma of_moveFile (hplace : t.locate p = .ok place) (hnode : t.node? place = some (.file content))
    (h : t.moveFile p q = .ok t') :
    ∃ new, t'.locate q = .ok new ∧ t.node? new ≠ some .directory ∧ t' = (t.erase place).put new (.file content) := by
  unfold moveFile at h
  split_ifs at h with hname
  · simp [bind, Except.bind, throw, throwThe, MonadExceptOf.throw] at h
  cases hnew : t.locate q with
  | error fault => simp [hplace, hnew, bind, Except.bind] at h
  | ok new =>
    have hfree : t.node? new ≠ some .directory := by
      intro hdirectory
      simp [hplace, hnew, hnode, hdirectory, bind, Except.bind, throw, throwThe, MonadExceptOf.throw] at h
    obtain rfl : (t.erase place).put new (.file content) = t' := by
      simp only [hplace, hnew, hnode, bind, Except.bind, pure, Except.pure] at h
      cases htarget : t.node? new with
      | none => simpa [htarget] using h
      | some node =>
        cases node with
        | directory => exact (hfree htarget).elim
        | file old => simpa [htarget] using h
    exact ⟨new, (keepsDirectories_of_move hnode hfree).locate hnew, hfree, rfl⟩

/-- A file that was made where nothing was and is taken away has left no trace. -/
lemma spares_of_erase_put (hnone : t.node? place = none) : t.Spares ((t.put place node).erase place) := by
  have hplace : place ≠ [] := ne_nil_of_none hnone
  intro other
  refine .inl ?_
  rw [node?_erase hplace, node?_put hplace]
  split_ifs with hother
  · rw [hother, hnone]
  · rfl

/-- A file that was made where nothing was and is moved has replaced what it was moved to. -/
lemma replaces_of_put_erase_put {new : Location} (hnone : t.node? place = none)
    (hnew : (t.put place (.file content)).node? new ≠ some .directory) :
    t.Replaces (((t.put place (.file content)).erase place).put new (.file content)) new content := by
  have hplace : place ≠ [] := ne_nil_of_none hnone
  have hnewplace : new ≠ [] := ne_nil_of_node?_ne hnew
  refine ⟨fun hdirectory => ?_, by rw [node?_put hnewplace, if_pos rfl], fun other hother => ?_⟩
  · have hne : new ≠ place := by
      rintro rfl
      simp [hnone] at hdirectory
    rw [node?_put hplace, if_neg hne] at hnew
    exact hnew hdirectory
  · have hspared : t.SparesAt ((t.put place (.file content)).erase place) other := spares_of_erase_put hnone other
    unfold SparesAt at hspared ⊢
    rwa [node?_put hnewplace, if_neg hother]

end SchemaAccessors.Files.Tree
