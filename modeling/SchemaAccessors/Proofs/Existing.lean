import SchemaAccessors.Proofs.Writing

/-!
# Files that were there before

Where a file is written, the directories on the way to it are made, and then it takes its place or nothing does. Where
files may not be overwritten, all targets are looked for first. What is looked for is found, but for one case: a path
that steps back out of a directory that is not there leads nowhere, and it leads somewhere as soon as the directory is
made. This file says that no other target takes the place of a file that was there.
-/

namespace SchemaAccessors

/-! ## Places on the way -/

namespace Files

/-- The place that a component leads to from a place. -/
def step (place : Location) (c : String) : Location :=
  if c = ".." then place.dropLast else place ++ [c]

namespace Path

/-- A path comes to a place, on the way or in the end. -/
def Passes (p : Path) (place : Location) : Prop :=
  ∃ start, start <+: p.components ∧ collapseFrom [] start = place

lemma collapseFrom_reverse_cons (place : Location) (c : String) (rest : List String) :
    collapseFrom place.reverse (c :: rest) = collapseFrom (step place c).reverse rest := by
  unfold step
  rw [collapseFrom]
  split
  · rw [List.tail_reverse]
  · rw [List.reverse_append, List.reverse_singleton, List.singleton_append]

end Path

namespace Tree

variable {t t' : Tree} {place other : Location} {components : List String} {p : Path}

/-- A path steps back out of a place where no directory is. -/
def StepsOut (t : Tree) (p : Path) : Prop :=
  ∃ start rest, p.components = start ++ ".." :: rest ∧ t.node? (Path.collapseFrom [] start) ≠ some .directory

/-- What is in a tree is in a directory of it. -/
def Grounded (t : Tree) : Prop :=
  ∀ place name, t.node? (place ++ [name]) ≠ none → t.node? place = some .directory

lemma grounded_of_nodes (h : ∀ n ∈ t.nodes, t.node? n.1.dropLast = some .directory) : t.Grounded := by
  intro place name hname
  have hne : place ++ [name] ≠ [] := by simp
  rw [node?, if_neg hne, ne_eq, List.lookup_eq_none_iff, not_forall] at hname
  obtain ⟨n, hn⟩ := hname
  obtain ⟨hn, hplace⟩ : n ∈ t.nodes ∧ place ++ [name] = n.1 := by simpa using hn
  have hdirectory := h n hn
  rwa [← hplace, List.dropLast_concat] at hdirectory

/-- Nothing is changed at a place, unless there is a directory where nothing was and a path comes to it. -/
def SparesBut (way : Path) (t t' : Tree) (place : Location) : Prop :=
  t'.node? place = t.node? place ∨
    (t.node? place = none ∧ t'.node? place = some .directory ∧ way.Passes place)

/-! ## Looking for a place -/

lemma follow_cons_of_directory {c : String} (h : t.node? place = some .directory) (hc : c.utf8ByteSize ≤ longestName)
    (rest : List String) : t.follow place (c :: rest) = t.follow (step place c) rest := by
  rw [follow, h]
  exact if_neg (Nat.not_lt_of_le hc)

/-- Where a path leads, its names are not too long. -/
lemma of_follow (h : t.follow place components = .ok other) :
    other = Path.collapseFrom place.reverse components ∧ ∀ c ∈ components, c.utf8ByteSize ≤ longestName := by
  induction components generalizing place with
  | nil =>
    obtain rfl := Except.ok.inj h
    exact ⟨(List.reverse_reverse _).symm, by simp⟩
  | cons c rest ih =>
    have hplace : t.node? place = some .directory ∧ c.utf8ByteSize ≤ longestName := by
      unfold follow at h
      split at h
      · cases h
      · cases h
      · next hnode =>
        refine ⟨hnode, Nat.le_of_not_lt fun hlong => ?_⟩
        rw [if_pos hlong] at h
        cases h
    obtain ⟨hnode, hc⟩ := hplace
    rw [follow_cons_of_directory hnode hc] at h
    obtain ⟨hother, hrest⟩ := ih h
    exact ⟨hother.trans (Path.collapseFrom_reverse_cons place c rest).symm, List.forall_mem_cons.2 ⟨hc, hrest⟩⟩

/-- What is in a tree is found from a place, unless the way to it steps back out of a place where no directory is. -/
lemma follow_of_node? (ht : t.Grounded) (hshort : ∀ c ∈ components, c.utf8ByteSize ≤ longestName)
    (hstays : ∀ start rest, components = start ++ ".." :: rest →
      t.node? (Path.collapseFrom place.reverse start) = some .directory)
    (hthere : t.node? (Path.collapseFrom place.reverse components) ≠ none) :
    t.follow place components = .ok (Path.collapseFrom place.reverse components) ∧
      (components ≠ [] → t.node? place = some .directory) := by
  induction components generalizing place with
  | nil =>
    refine ⟨?_, fun h => absurd rfl h⟩
    rw [follow, Path.collapseFrom, List.reverse_reverse]
  | cons c rest ih =>
    obtain ⟨hc, hrest⟩ := List.forall_mem_cons.1 hshort
    rw [Path.collapseFrom_reverse_cons] at hthere ⊢
    obtain ⟨hfollow, hnext⟩ := ih hrest (fun start behind hsplit => by
      rw [← Path.collapseFrom_reverse_cons]
      exact hstays (c :: start) behind (congrArg (c :: ·) hsplit)) hthere
    have hplace : t.node? place = some .directory := by
      by_cases hback : c = ".."
      · rw [← List.reverse_reverse place]
        exact hstays [] rest (by rw [hback, List.nil_append])
      · -- the next place is below this one, and something is there
        have hstep : step place c = place ++ [c] := if_neg hback
        refine ht place c ?_
        rw [← hstep]
        cases rest with
        | nil => simpa [Path.collapseFrom] using hthere
        | cons c' rest => simp [hnext (List.cons_ne_nil _ _)]
    rw [follow_cons_of_directory hplace hc]
    exact ⟨hfollow, fun _ => hplace⟩

lemma locate_eq (t : Tree) (p : Path) :
    t.locate p = if longestPath < p.text.utf8ByteSize then .error .nameTooLong else t.follow [] p.components := by
  have htop : (Path.top.join p).components = p.components := by
    unfold Path.join
    split_ifs <;> rfl
  rw [locate, locateFrom, htop]

lemma collapseFrom_of_locate (h : t.locate p = .ok place) : Path.collapseFrom [] p.components = place := by
  rw [locate_eq] at h
  split_ifs at h
  exact (of_follow h).1.symm

/-- A path that leads to a place in one tree leads to what another one holds there, unless it steps out of that. -/
lemma look_of_locate {node : Node} (ht : t.Grounded) (hlocate : t'.locate p = .ok place)
    (hnode : t.node? place = some node) (hstays : ¬ t.StepsOut p) : t.look p = .ok node := by
  have hplace := collapseFrom_of_locate hlocate
  rw [locate_eq] at hlocate
  split_ifs at hlocate with hlong
  have hthere : t.node? (Path.collapseFrom ([] : Location).reverse p.components) ≠ none := by
    rw [List.reverse_nil, hplace, hnode]
    simp
  have hfollow : t.follow [] p.components = .ok place := by
    refine (follow_of_node? ht (of_follow hlocate).2 (fun start rest hsplit => ?_) hthere).1.trans (congrArg _ hplace)
    by_contra hnone
    exact hstays ⟨start, rest, hsplit, hnone⟩
  rw [look, locate_eq, if_neg hlong, hfollow]
  simp [bind, Except.bind, hnode, pure, Except.pure]

/-! ## Directories that are made -/

/-- A directory that making directories adds is one that the components come to. -/
lemma exists_prefix_of_makeFrom {made : Bool} (hnone : t.node? other = none)
    (hmade : (t.makeFrom place made components).1.node? other = some .directory) :
    ∃ start, start <+: components ∧ Path.collapseFrom place.reverse start = other := by
  induction components generalizing t place made with
  | nil => simp [makeFrom, hnone] at hmade
  | cons c rest ih =>
    unfold makeFrom at hmade
    have hstep {start : List String} (hstart : start <+: rest)
        (hother : Path.collapseFrom (step place c).reverse start = other) :
        ∃ start, start <+: c :: rest ∧ Path.collapseFrom place.reverse start = other :=
      ⟨c :: start, List.cons_prefix_cons.2 ⟨rfl, hstart⟩, (Path.collapseFrom_reverse_cons place c start).trans hother⟩
    by_cases hlong : longestName < c.utf8ByteSize
    · simp [hlong, hnone] at hmade
    rw [if_neg hlong] at hmade
    dsimp only at hmade
    have hnext : (if c = ".." then place.dropLast else place ++ [c]) = step place c := rfl
    rw [hnext] at hmade
    cases hnode : t.node? (step place c) with
    | none =>
      rw [hnode] at hmade
      by_cases hhere : other = step place c
      · exact hstep List.nil_prefix (by rw [hhere, Path.collapseFrom, List.reverse_reverse])
      · rw [← node?_put_of_ne t .directory hhere] at hnone
        obtain ⟨start, hstart, hother⟩ := ih hnone hmade
        exact hstep hstart hother
    | some node =>
      rw [hnode] at hmade
      cases node with
      | file content => simp [hnone] at hmade
      | directory =>
        obtain ⟨start, hstart, hother⟩ := ih hnone hmade
        exact hstep hstart hother

lemma passes_of_makeDirectories (hnone : t.node? other = none)
    (hmade : (t.makeDirectories p).1.node? other = some .directory) : p.Passes other := by
  unfold makeDirectories at hmade
  split_ifs at hmade
  · simp [hnone] at hmade
  · exact exists_prefix_of_makeFrom hnone hmade

/-! ## Changes that make no directory -/

lemma keepsDirectories_of_put_file (t : Tree) (place : Location) (content : ByteArray) :
    (t.put place (.file content)).KeepsDirectories t := by
  intro other hother
  by_cases hplace : other = place
  · subst hplace
    by_cases htop : other = []
    · rw [htop]
      rfl
    · rw [node?_put_self t _ htop] at hother
      cases hother
  · rwa [node?_put_of_ne t _ hplace] at hother

lemma keepsDirectories_of_erase (t : Tree) (place : Location) : (t.erase place).KeepsDirectories t := by
  intro other hother
  by_cases htop : place = []
  · by_cases hplace : other = place
    · rw [hplace, htop]
      rfl
    · rwa [node?_erase_of_ne t hplace] at hother
  · rw [node?_erase htop] at hother
    split_ifs at hother
    exact hother

lemma keepsDirectories_of_removeFile (h : t.removeFile p = .ok t') : t'.KeepsDirectories t := by
  obtain ⟨place, -, h⟩ := bind_eq_ok.1 h
  split at h
  · rw [← Except.ok.inj h]
    exact keepsDirectories_of_erase t place
  · cases h
  · cases h

lemma keepsDirectories_of_moveFile {q : Path} (h : t.moveFile p q = .ok t') : t'.KeepsDirectories t := by
  unfold moveFile at h
  split_ifs at h
  · cases h
  obtain ⟨old, -, h⟩ := bind_eq_ok.1 h
  obtain ⟨new, -, h⟩ := bind_eq_ok.1 h
  split at h
  · cases h
  · rw [← Except.ok.inj h]
    exact (keepsDirectories_of_put_file _ new _).trans (keepsDirectories_of_erase t old)
  · cases h
  · cases h

end Tree

end Files

namespace Output

open Files (Path Tree)

/-! ## Writing one file -/

section Steps

variable {α : Type} {d d' : Disk} {path : Path} {content : String} {place : Files.Location}

lemma eq_of_passable {path q : Path} (h : path.passable = .ok q) : q = path := by
  unfold Path.passable at h
  split_ifs at h
  exact (Except.ok.inj h).symm

lemma outcome_tryCatch_leads {R : Disk → Disk → Prop} (trans : ∀ {a b c}, R a b → R b c → R a c) {x : WriteM α}
    {h : Failure → WriteM α} (hx : R d (outcome x d).2) (hh : ∀ e t, R t (outcome (h e) t).2) :
    R d (outcome (tryCatch x h) d).2 := by
  rw [outcome_tryCatch]
  generalize outcome x d = r at hx
  rcases r with ⟨e | a, t⟩
  · exact trans hx (hh e t)
  · exact hx

/-- No directory is made. -/
def MakesNone (d d' : Disk) : Prop :=
  d'.files.KeepsDirectories d.files

lemma MakesNone.refl (d : Disk) : MakesNone d d := fun _ => id

lemma MakesNone.trans {d₁ d₂ d₃ : Disk} (h : MakesNone d₁ d₂) (h' : MakesNone d₂ d₃) : MakesNone d₁ d₃ :=
  Tree.KeepsDirectories.trans h' h

lemma makesNone_change {f : Tree → Except Files.Fault Tree} (hf : ∀ t t', f t = .ok t' → t'.KeepsDirectories t)
    (d : Disk) : MakesNone d (outcome (change f) d).2 := by
  rw [outcome_change]
  cases hfiles : f d.files with
  | ok files => exact hf _ _ hfiles
  | error fault => exact .refl d

lemma makesNone_createTemporary (directory : Path) (name : String) (content : ByteArray) (attempts number : Nat)
    (d : Disk) : MakesNone d (outcome (createTemporary directory name content attempts number) d).2 := by
  rcases cases_of_createTemporary directory name content attempts number d with
    ⟨e, hfailed⟩ | ⟨p, place, -, -, hcreated⟩
  · rw [hfailed]
    exact .refl d
  · rw [hcreated]
    exact Tree.keepsDirectories_of_put_file _ place content

lemma makesNone_install (check : Check) (temporary path : Path) (content : String) (d : Disk) :
    MakesNone d (outcome (install check temporary path content) d).2 := by
  refine outcome_tryCatch_leads (R := MakesNone) .trans ?_ fun failure t => ?_
  · exact outcome_bind_leads (R := MakesNone) .trans (.refl d) fun _ t _ =>
      makesNone_change (fun _ _ => Tree.keepsDirectories_of_moveFile) t
  · exact outcome_bind_leads (R := MakesNone) .trans
      (makesNone_change (fun _ _ => Tree.keepsDirectories_of_removeFile) t) fun _ u _ => .refl u

/-- A directory that is added on the way to a path is one that the path comes to. -/
lemma passes_of_makeDirectories (path : Path) (hnone : d.files.node? place = none)
    (hmade : (outcome (makeDirectories path) d).2.files.node? place = some .directory) : path.Passes place := by
  unfold makeDirectories at hmade
  cases hpassable : path.passable with
  | error e =>
    have hnothing : d.files.node? place = some .directory := by rwa [hpassable] at hmade
    simp [hnone] at hnothing
  | ok q =>
    obtain rfl := eq_of_passable hpassable
    rw [hpassable, outcome_bind_of_ok (outcome_lift _ d), outcome_bind_of_ok (outcome_get d)] at hmade
    refine Tree.passes_of_makeDirectories hnone ?_
    generalize d.files.makeDirectories q = made at hmade ⊢
    obtain ⟨files, fault?⟩ := made
    cases fault? <;> exact hmade

/-- A directory that writing a file adds is one that the path of its directory comes to. -/
lemma passes_of_write (check : Check) (path : Path) (content : String) (hnone : d.files.node? place = none)
    (hmade : (outcome (write check path content) d).2.files.node? place = some .directory) :
    path.parent.Passes place := by
  rw [write_eq] at hmade
  rcases hparent : outcome (makeDirectories path.parent) d with ⟨e | ⟨⟩, d₁⟩
  · rw [outcome_bind_of_error hparent] at hmade
    exact passes_of_makeDirectories path.parent hnone (by rwa [hparent])
  rw [outcome_bind_of_ok hparent] at hmade
  refine passes_of_makeDirectories path.parent hnone ?_
  rw [hparent]
  refine (?_ : MakesNone d₁ _) place hmade
  refine outcome_bind_leads (R := MakesNone) .trans (.refl d₁) fun path t _ => ?_
  refine outcome_bind_leads (R := MakesNone) .trans (.refl t) fun now u _ => ?_
  refine outcome_bind_leads (R := MakesNone) .trans (makesNone_createTemporary _ _ _ _ _ u) fun temporary v _ => ?_
  have hinstalled := makesNone_install check temporary path content v
  exact outcome_bind_leads (R := MakesNone) .trans hinstalled fun _ w _ => .refl w

lemma sparesBut_of_write (check : Check) {r : Except Failure Unit}
    (hwrite : outcome (write check path content) d = (r, d')) (hspared : d.files.SparesAt d'.files place) :
    d.files.SparesBut path.parent d'.files place := by
  refine hspared.imp_right fun ⟨hnone, hmade⟩ => ⟨hnone, hmade, ?_⟩
  exact passes_of_write check path content hnone (by rwa [hwrite])

lemma passable_of_write {check : Check} (hwrite : outcome (write check path content) d = (.ok (), d')) :
    path.passable = .ok path := by
  rw [write_eq] at hwrite
  obtain ⟨-, d₁, -, hwrite⟩ := outcome_bind_eq_ok hwrite
  obtain ⟨q, d₂, hpassable, -⟩ := outcome_bind_eq_ok hwrite
  have hq : path.passable = .ok q := congrArg (·.1) hpassable
  rw [hq, eq_of_passable hq]

end Steps

/-! ## Writing files that are not there -/

section Targets

variable {d d' : Disk} {place : Files.Location} {held : ByteArray} {files : Table Path String}

/-- A file that was there stays where files are written one after another, unless one of them comes to its place. -/
lemma node?_of_forM (check : Check) (hheld : d.files.node? place = some (.file held)) :
    (outcome (files.forM fun p => write check p.1 p.2) d).2.files.node? place = some (.file held) ∨
      ∃ p ∈ files.keys, p.passable = .ok p ∧ ∃ during : Tree, during.locate p = .ok place := by
  induction files generalizing d with
  | nil => exact .inl hheld
  | cons p files ih =>
    rw [outcome_forM_cons]
    have hspared {t : Tree} (hspares : d.files.SparesAt t place) : t.node? place = some (.file held) := by
      rcases hspares with hsame | ⟨hnone, -⟩
      · exact hsame.trans hheld
      · simp [hheld] at hnone
    have hwrote := wrote_write check p.1 p.2 d
    generalize hr : outcome (write check p.1 p.2) d = r at hwrote
    cases hwrote with
    | failed spared =>
      rw [outcome_bind_of_error hr]
      exact .inl (hspared (spared place))
    | @done d₁ target located replaced =>
      rw [outcome_bind_of_ok hr]
      by_cases hplace : place = target
      · exact .inr ⟨p.1, List.mem_cons_self, passable_of_write hr, d₁.files, hplace ▸ located⟩
      · exact (ih (hspared (replaced.others place hplace))).imp_right fun ⟨q, hq, hfound⟩ =>
          ⟨q, List.mem_cons_of_mem p.1 hq, hfound⟩

/-- A choice among members that looks at the state only holds all members that it is right for. -/
lemma subset_of_filterAuxM {σ α : Type} {f : α → ExceptT Failure (StateM σ) Bool} {r : α → Except Failure Bool}
    {s s' : σ} (hf : ∀ a, outcome (f a) s = (r a, s)) {xs acc chosen : List α}
    (hok : outcome (xs.filterAuxM f acc) s = (.ok chosen, s')) :
    acc ⊆ chosen ∧ ∀ a ∈ xs, r a = .ok false ∨ a ∈ chosen := by
  induction xs generalizing acc with
  | nil =>
    obtain rfl : acc = chosen := by simpa [List.filterAuxM] using congrArg (·.1) hok
    exact ⟨List.Subset.refl _, by simp⟩
  | cons a xs ih =>
    rw [List.filterAuxM] at hok
    obtain ⟨b, t, ha, hrest⟩ := outcome_bind_eq_ok hok
    obtain ⟨hb, rfl⟩ : r a = .ok b ∧ s = t := Prod.ext_iff.1 ((hf a).symm.trans ha)
    obtain ⟨hacc, hxs⟩ := ih hrest
    refine ⟨?_, List.forall_mem_cons.2 ⟨?_, hxs⟩⟩
    · cases b
      · exact hacc
      · exact fun x hx => hacc (List.mem_cons_of_mem a hx)
    · cases b
      · exact .inl hb
      · exact .inr (hacc List.mem_cons_self)

/-- Where no member is chosen, the choice is right for none. -/
lemma eq_false_of_filterM {σ α : Type} {f : α → ExceptT Failure (StateM σ) Bool} {r : α → Except Failure Bool}
    {s s' : σ} (hf : ∀ a, outcome (f a) s = (r a, s)) {xs : List α}
    (hok : outcome (xs.filterM f) s = (.ok [], s')) : ∀ a ∈ xs, r a = .ok false := by
  obtain ⟨chosen, t, hchosen, hlast⟩ := outcome_bind_eq_ok hok
  have hnone : chosen = [] := by
    rw [← List.reverse_eq_nil_iff]
    exact Except.ok.inj (congrArg (·.1) hlast)
  rw [hnone] at hchosen
  exact fun a ha => ((subset_of_filterAuxM hf hchosen).2 a ha).resolve_right List.not_mem_nil

/-- Where files may not be overwritten, nothing is done, or files are written of which none was found. -/
lemma writeAllWith_of_refuse (check : Check) (output : Path) (l : Option Language) (sources : Render.Sources)
    {group : Group OutputOptions} (hmode : ∀ options, optionsOf group = .ok options → options.mode = .refuse)
    (d : Disk) :
    (outcome (writeAllWith check output l sources group) d).2 = d ∨
      ∃ (check' : Check) (files : Table Path String), targets output l sources = .ok files ∧
        (∀ p ∈ files, isThere d.files p.1 = .ok false) ∧
        (outcome (writeAllWith check output l sources group) d).2 =
          (outcome (files.forM fun p => write check' p.1 p.2) d).2 := by
  unfold writeAllWith
  cases htargets : targets output l sources with
  | error e => exact .inl rfl
  | ok files =>
    rw [outcome_bind_of_ok (outcome_lift _ d)]
    cases hgroup : optionsOf group with
    | error e => exact .inl rfl
    | ok options =>
      rw [outcome_bind_of_ok (outcome_lift _ d)]
      dsimp only
      rw [hmode options hgroup]
      dsimp only
      have hlook : d = (outcome (files.filterM fun p => do lift (isThere (← get).files p.1)) d).2 :=
        outcome_filterM_snd (fun _ _ => rfl) files d
      rcases hpresent : outcome (files.filterM _) d with ⟨e | present, d₁⟩ <;>
        rw [hpresent] at hlook <;> obtain rfl : d = d₁ := hlook
      · rw [outcome_bind_of_error hpresent]
        exact .inl rfl
      rw [outcome_bind_of_ok hpresent]
      split
      · exact .inl rfl
      · next hnone =>
        obtain rfl : present = [] := by simpa using hnone
        have hnot : ∀ p ∈ files, isThere d.files p.1 = .ok false := by
          refine eq_false_of_filterM (r := fun p => isThere d.files p.1) ?_ hpresent
          exact fun p => rfl
        refine .inr ⟨check.orNone options.validateBeforeWrite.truthy, files, rfl, hnot, ?_⟩
        change (outcome (replaceAll check options files) d).2 = _
        rw [replaceAll]
        generalize check.orNone options.validateBeforeWrite.truthy = check'
        rcases hall : outcome (files.forM fun p => write check' p.1 p.2) d with ⟨e | ⟨⟩, d'⟩
        · rw [outcome_bind_of_error hall]
        · rw [outcome_bind_of_ok hall, outcome_pure]

/-- A file that is looked for and not found has none in its place, unless its path steps out. -/
lemma stepsOut_of_isThere {t during : Tree} {p : Path} (ht : t.Grounded) (hheld : t.node? place = some (.file held))
    (hpassable : p.passable = .ok p) (hlocate : during.locate p = .ok place) (hnot : isThere t p = .ok false) :
    t.StepsOut p ∧ Path.collapseFrom [] p.components = place := by
  refine ⟨by_contra fun hstays => ?_, Tree.collapseFrom_of_locate hlocate⟩
  have hlook := Tree.look_of_locate ht hlocate hheld hstays
  unfold isThere at hnot
  rw [hpassable, hlook] at hnot
  cases hnot

end Targets

/-- A file is written as a whole, with everything else kept, or all is kept; but directories may be made that the way to
the file comes to. Where files may not be overwritten, no file that was there is changed, unless a target that steps out
of a place where no directory was leads to it. -/
theorem keeps_files (check : Check) (d : Disk) :
    (∀ path content, ∃ r d', outcome (write check path content) d = (r, d') ∧
      match r with
      | .ok _ => ∃ target, d'.files.locate path = .ok target ∧ d.files.node? target ≠ some .directory ∧
          d'.files.node? target = some (.file content.toUTF8) ∧
          ∀ place ≠ target, d.files.SparesBut path.parent d'.files place
      | .error _ => ∀ place, d.files.SparesBut path.parent d'.files place) ∧
    ∀ output l sources group, d.files.Grounded →
      (∀ options, optionsOf group = .ok options → options.mode = .refuse) →
        ∀ place held, d.files.node? place = some (.file held) →
          (outcome (writeAllWith check output l sources group) d).2.files.node? place = some (.file held) ∨
            ∃ table, targets output l sources = .ok table ∧ ∃ p ∈ table.keys,
              d.files.StepsOut p ∧ Path.collapseFrom [] p.components = place := by
  constructor
  · intro path content
    have hwrote := wrote_write check path content d
    generalize hr : outcome (write check path content) d = r at hwrote
    cases hwrote with
    | @done d' target located replaced =>
      exact ⟨.ok (), d', rfl, target, located, replaced.free, replaced.holds, fun place hplace =>
        sparesBut_of_write check hr (replaced.others place hplace)⟩
    | @failed e d' spared => exact ⟨.error e, d', rfl, fun place => sparesBut_of_write check hr (spared place)⟩
  · intro output l sources group ht hmode place held hheld
    rcases writeAllWith_of_refuse check output l sources hmode d with hsame | ⟨check', files, htargets, hnot, hall⟩
    · exact .inl (by rw [hsame, hheld])
    · rw [hall]
      refine (node?_of_forM check' hheld).imp_right fun ⟨p, hp, hpassable, during, hlocate⟩ => ?_
      obtain ⟨entry, hentry, rfl⟩ := List.mem_map.1 hp
      exact ⟨files, htargets, entry.1, hp, stepsOut_of_isThere ht hheld hpassable hlocate (hnot entry hentry)⟩

/-! ### A class that is there already, and a path to it that steps out of a directory that is not -/

namespace Detour

def old : ByteArray := "class A { int kept; }".toUTF8

def begun : Disk :=
  ⟨⟨[(["work", "A.java"], .file old), (["work"], .directory)]⟩, #[]⟩

def sources : Render.Sources :=
  [("A.java", "class A {}")]

def last : Disk :=
  ⟨⟨[(["work", "A.java"], .file "class A {}".toUTF8), (["work", "x"], .directory), (["work"], .directory)]⟩,
    #[.wrote "/work/x/../A.java"]⟩

lemma grounded : begun.files.Grounded :=
  Tree.grounded_of_nodes (List.forall_mem_cons.2 ⟨rfl, List.forall_mem_singleton.2 rfl⟩)

end Detour

/-- A class is written in another directory than one that is there, which stays. -/
theorem keeps_files_aside :
    (outcome (writeAll ⟨.single, ["work", "out"]⟩ (some .java) Detour.sources (.options {})) Detour.begun).1 =
        .ok [⟨.single, ["work", "out", "A.java"]⟩] ∧
      (outcome (writeAll ⟨.single, ["work", "out"]⟩ (some .java) Detour.sources (.options {}))
        Detour.begun).2.files.node? ["work", "A.java"] = some (.file Detour.old) := by
  constructor
  · simp only [writeAll, writeAllWith, write, makeDirectories, isThere, passable_eq]
    rfl
  have hmode : ∀ options, optionsOf (.options {}) = .ok options → options.mode = .refuse := by
    rintro _ ⟨⟩
    rfl
  refine ((keeps_files (check (some .java)) Detour.begun).2 ⟨.single, ["work", "out"]⟩ (some .java) Detour.sources
    (.options {}) Detour.grounded hmode ["work", "A.java"] Detour.old rfl).resolve_right ?_
  rintro ⟨table, htable, p, hp, -, hplace⟩
  obtain rfl : Table.ofEntries [(⟨.single, ["work", "out", "A.java"]⟩, "class A {}")] = table :=
    Except.ok.inj htable
  obtain rfl : p = ⟨.single, ["work", "out", "A.java"]⟩ := List.mem_singleton.1 hp
  exact absurd hplace (by decide)

/-- A class that is there is overwritten, though it may not be. -/
theorem overwritten :
    outcome (writeAll ⟨.single, ["work", "x", ".."]⟩ (some .java) Detour.sources (.options {})) Detour.begun =
        (.ok [⟨.single, ["work", "x", "..", "A.java"]⟩], Detour.last) ∧
      Detour.begun.files.node? ["work", "A.java"] = some (.file Detour.old) ∧
      Detour.last.files.node? ["work", "A.java"] = some (.file "class A {}".toUTF8) := by
  refine ⟨?_, rfl, rfl⟩
  simp only [writeAll, writeAllWith, write, makeDirectories, isThere, passable_eq]
  rfl

end Output

end SchemaAccessors
