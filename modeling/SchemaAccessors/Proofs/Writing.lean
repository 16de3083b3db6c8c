import SchemaAccessors.Output.Write
import SchemaAccessors.Proofs.Outcome
import SchemaAccessors.Proofs.Places

/-!
# Writing sources

One file is written as a whole or not at all: it is made under another name, checked, and moved into place, and taken
away again where that fails. A set of files is not: they are written one after another, and each is checked when its
turn comes. So where writing fails, the files before the one that it fails at stay written. This file says what a tree
holds then.
-/

namespace SchemaAccessors.Output

/-! ## Steps of writing -/

section Steps

variable {α : Type} {d d' : Disk}

lemma outcome_tryCatch (x : WriteM α) (h : Failure → WriteM α) (d : Disk) :
    outcome (tryCatch x h) d =
      match outcome x d with
      | (.ok a, t) => (.ok a, t)
      | (.error e, t) => outcome (h e) t := by
  unfold outcome ExceptT.run StateT.run
  simp only [tryCatch, tryCatchThe, MonadExceptOf.tryCatch, ExceptT.tryCatch, ExceptT.mk, bind, StateT.bind]
  rcases x d with ⟨_ | a, t⟩ <;> rfl

@[simp] lemma outcome_lift (r : Except Failure α) (d : Disk) : outcome (lift r) d = (r, d) := rfl

lemma outcome_change (f : Files.Tree → Except Files.Fault Files.Tree) (d : Disk) :
    outcome (change f) d =
      match f d.files with
      | .ok files => (.ok ⟨⟩, { d with files })
      | .error fault => (.error (.file fault), d) := by
  unfold change
  rw [outcome_bind_of_ok (outcome_get d)]
  cases f d.files <;> rfl

/-- Whether a path is handed to the system, read from the characters of its components. -/
lemma passable_eq (p : Files.Path) :
    p.passable = if p.components.any (fun c => c.toList.contains '\x00') then .error .nullInPath else .ok p := by
  unfold Files.Path.passable
  congr 3
  funext c
  rw [Bool.eq_iff_iff]
  simp

/-- Making directories spares everything, whether it succeeds or not. -/
lemma spares_makeDirectories (p : Files.Path) (d : Disk) : d.files.Spares (outcome (makeDirectories p) d).2.files := by
  unfold makeDirectories
  cases hpassable : p.passable with
  | error e => exact .refl _
  | ok q =>
    rw [outcome_bind_of_ok (outcome_lift _ d), outcome_bind_of_ok (outcome_get d)]
    have hspares := d.files.spares_makeDirectories q
    generalize d.files.makeDirectories q = made at hspares ⊢
    obtain ⟨files, fault?⟩ := made
    cases fault? <;> exact hspares

/-- A file in the making is made where nothing was, or nothing is changed. -/
lemma cases_of_createTemporary (directory : Files.Path) (name : String) (content : ByteArray) (attempts number : Nat)
    (d : Disk) :
    (∃ e, outcome (createTemporary directory name content attempts number) d = (.error e, d)) ∨
      ∃ p place, d.files.locate p = .ok place ∧ d.files.node? place = none ∧
        outcome (createTemporary directory name content attempts number) d =
          (.ok p, { d with files := d.files.put place (.file content) }) := by
  induction attempts generalizing number with
  | zero => exact .inl ⟨_, rfl⟩
  | succ attempts ih =>
    unfold createTemporary
    rw [outcome_bind_of_ok (outcome_get d)]
    cases hcreate : d.files.createFile (directory.join ⟨.relative, [temporaryName name number]⟩) content with
    | ok files =>
      obtain ⟨place, hplace, hnone, rfl⟩ := Files.Tree.of_createFile hcreate
      exact .inr ⟨_, place, hplace, hnone, rfl⟩
    | error fault =>
      cases fault with
      | present => exact ih (number + 1)
      | _ => exact .inl ⟨_, rfl⟩

/-- The part of writing that comes after the file in the making was made. -/
def install (check : Check) (temporary path : Files.Path) (content : String) : WriteM PUnit :=
  tryCatch (do
    lift (check content)
    change (·.moveFile temporary path)) fun failure => do
    change (·.removeFile temporary)
    throw failure

lemma write_eq (check : Check) (path : Files.Path) (content : String) :
    write check path content = (do
      makeDirectories path.parent
      let path ← lift path.passable
      let temporary ←
        createTemporary path.parent path.name content.toUTF8 ((← get).files.nodes.length + 1) 0
      install check temporary path content
      modify fun d => { d with trace := d.trace.push (.wrote path.text) }) := rfl

end Steps

/-! ## One file -/

/-- What writing a file comes to: the file holds its content, or nothing is changed; directories may be made. -/
inductive Wrote (path : Files.Path) (content : String) (t : Files.Tree) : Except Failure Unit × Disk → Prop
  | done {d : Disk} {place : Files.Location} (located : d.files.locate path = .ok place)
      (replaced : t.Replaces d.files place content.toUTF8) : Wrote path content t (.ok (), d)
  | failed {e : Failure} {d : Disk} (spared : t.Spares d.files) : Wrote path content t (.error e, d)

lemma Wrote.of_spares {path : Files.Path} {content : String} {t t' : Files.Tree} {r : Except Failure Unit × Disk}
    (hspares : t.Spares t') (h : Wrote path content t' r) : Wrote path content t r := by
  cases h with
  | done located replaced =>
    refine .done located ⟨fun hdirectory => ?_, replaced.holds, fun other hother => ?_⟩
    · exact replaced.free (hspares.keepsDirectories _ hdirectory)
    · exact (hspares other).trans (replaced.others other hother)
  | failed spared => exact .failed (hspares.trans spared)

/-- A file in the making takes its place, or is taken away again. -/
lemma wrote_install (check : Check) {temporary path : Files.Path} {content : String} {t : Files.Tree}
    {place : Files.Location} {trace : Trace} (hplace : t.locate temporary = .ok place) (hnone : t.node? place = none) :
    Wrote path content t
      (outcome (install check temporary path content) ⟨t.put place (.file content.toUTF8), trace⟩) := by
  have hput : t.KeepsDirectories (t.put place (.file content.toUTF8)) := by
    intro other hother
    rw [Files.Tree.node?_put (Files.Tree.ne_nil_of_none hnone), if_neg, hother]
    rintro rfl
    simp [hnone] at hother
  have hlocated := hput.locate hplace
  have hheld := Files.Tree.node?_put_self t (.file content.toUTF8) (Files.Tree.ne_nil_of_none hnone)
  -- whatever fails, the file in the making is taken away
  have hfailed (failure : Failure) : Wrote path content t
      (outcome (do change (·.removeFile temporary); throw failure : WriteM PUnit)
        ⟨t.put place (.file content.toUTF8), trace⟩) := by
    have hremoved := outcome_change (·.removeFile temporary) ⟨t.put place (.file content.toUTF8), trace⟩
    rw [Files.Tree.removeFile_of_file hlocated hheld] at hremoved
    rw [outcome_bind_of_ok hremoved]
    exact .failed (Files.Tree.spares_of_erase_put hnone)
  rw [install, outcome_tryCatch]
  cases hcheck : check content with
  | error failure =>
    rw [outcome_bind_of_error (outcome_lift (.error failure) _)]
    exact hfailed failure
  | ok =>
    rw [outcome_bind_of_ok (outcome_lift (.ok ()) _), outcome_change]
    cases hmove : (t.put place (.file content.toUTF8)).moveFile temporary path with
    | error fault => exact hfailed (.file fault)
    | ok files =>
      obtain ⟨new, hnew, hfree, rfl⟩ := Files.Tree.of_moveFile hlocated hheld hmove
      exact .done hnew (Files.Tree.replaces_of_put_erase_put hnone hfree)

/-- A file is written as a whole, or nothing is changed but that directories may have been made. -/
theorem wrote_write (check : Check) (path : Files.Path) (content : String) (d : Disk) :
    Wrote path content d.files (outcome (write check path content) d) := by
  have hspares := spares_makeDirectories path.parent d
  rw [write_eq]
  rcases hmade : outcome (makeDirectories path.parent) d with ⟨e | ⟨⟩, d₁⟩ <;> rw [hmade] at hspares
  · rw [outcome_bind_of_error hmade]
    exact .failed hspares
  rw [outcome_bind_of_ok hmade]
  refine .of_spares hspares ?_
  cases hpassable : path.passable with
  | error e => exact .failed (.refl _)
  | ok p =>
    obtain rfl : path = p := by
      unfold Files.Path.passable at hpassable
      split_ifs at hpassable
      exact Except.ok.inj hpassable
    rw [outcome_bind_of_ok (outcome_lift _ d₁), outcome_bind_of_ok (outcome_get d₁)]
    rcases cases_of_createTemporary path.parent path.name content.toUTF8 (d₁.files.nodes.length + 1) 0 d₁ with
      ⟨e, hcreate⟩ | ⟨temporary, place, hplace, hnone, hcreate⟩
    · rw [outcome_bind_of_error hcreate]
      exact .failed (.refl _)
    · rw [outcome_bind_of_ok hcreate]
      have hinstall : Wrote path content d₁.files
          (outcome (install check temporary path content)
            ⟨d₁.files.put place (.file content.toUTF8), d₁.trace⟩) :=
        wrote_install check hplace hnone
      generalize hr : outcome (install check temporary path content) _ = r at hinstall
      cases hinstall with
      | done located replaced =>
        rw [outcome_bind_of_ok hr]
        exact .done located replaced
      | failed spared =>
        rw [outcome_bind_of_error hr]
        exact .failed spared

/-! ## Files one after another -/

/-- Files were written one after another. -/
inductive Written : Files.Tree → Table Files.Path String → Files.Tree → Prop
  | none {t t' : Files.Tree} (spared : t.Spares t') : Written t [] t'
  | more {t t' t'' : Files.Tree} {path : Files.Path} {content : String} {place : Files.Location}
      {rest : Table Files.Path String}
      (located : t'.locate path = .ok place) (replaced : t.Replaces t' place content.toUTF8)
      (written : Written t' rest t'') : Written t ((path, content) :: rest) t''

/-- The content of the last of some files that are at a place. -/
def lastAt (t : Files.Tree) (files : Table Files.Path String) (place : Files.Location) : Option String :=
  (files.reverse.find? fun p => (t.locate p.1).toOption = some place).map (·.2)

lemma lastAt_cons (t : Files.Tree) (p : Files.Path × String) (rest : Table Files.Path String)
    (place : Files.Location) :
    lastAt t (p :: rest) place =
      (lastAt t rest place).or (if (t.locate p.1).toOption = some place then some p.2 else none) := by
  unfold lastAt
  rw [List.reverse_cons, List.find?_append]
  generalize rest.reverse.find? _ = found
  by_cases hplace : (t.locate p.1).toOption = some place <;> cases found <;> simp [hplace]

lemma toOption_eq_some_iff {ε α : Type} {x : Except ε α} {a : α} : x.toOption = some a ↔ x = .ok a := by
  cases x <;> simp [Except.toOption]

/-- The last of some files at a place is the only one there, if their places are different. -/
lemma lastAt_of_mem {t : Files.Tree} {files : Table Files.Path String} {place : Files.Location}
    {p : Files.Path × String}
    (hapart : files.Pairwise fun p q => t.locate p.1 ≠ t.locate q.1) (hp : p ∈ files)
    (hplace : t.locate p.1 = .ok place) : lastAt t files place = some p.2 := by
  induction files with
  | nil => simp at hp
  | cons q rest ih =>
    obtain ⟨hfirst, hrest⟩ := List.pairwise_cons.1 hapart
    rw [lastAt_cons]
    rcases List.mem_cons.1 hp with rfl | hp
    · have hnone : lastAt t rest place = none := by
        rw [lastAt, Option.map_eq_none_iff, List.find?_eq_none]
        intro r hr
        rw [decide_eq_true_iff, toOption_eq_some_iff, ← hplace]
        exact (hfirst r (List.mem_reverse.1 hr)).symm
      rw [hnone, if_pos (toOption_eq_some_iff.2 hplace), Option.none_or]
    · rw [ih hrest hp, Option.some_or]

namespace Written

variable {t t' : Files.Tree} {files : Table Files.Path String} {place : Files.Location}

lemma keepsDirectories (h : Written t files t') : t.KeepsDirectories t' := by
  induction h with
  | none spared => exact spared.keepsDirectories
  | more located replaced written ih => exact replaced.keepsDirectories.trans ih

lemma spares {t'' : Files.Tree} (h : Written t files t') (hspares : t'.Spares t'') : Written t files t'' := by
  induction h with
  | none spared => exact .none (spared.trans hspares)
  | more located replaced written ih => exact .more located replaced (ih hspares)

/-- The place of each file is known in the end. -/
lemma exists_locate (h : Written t files t') : ∀ p ∈ files, ∃ place, t'.locate p.1 = .ok place := by
  induction h with
  | none spared => simp
  | more located replaced written ih =>
    intro p hp
    rcases List.mem_cons.1 hp with rfl | hp
    · exact ⟨_, written.keepsDirectories.locate located⟩
    · exact ih p hp

/-- A place where files were written holds the content of the last of them, and any other is spared. -/
theorem node?_eq (h : Written t files t') (place : Files.Location) :
    (∀ content, lastAt t' files place = some content → t'.node? place = some (.file content.toUTF8)) ∧
      (lastAt t' files place = Option.none → t.SparesAt t' place) := by
  induction h with
  | none spared => exact ⟨by simp [lastAt], fun _ => spared place⟩
  | @more t t' t'' path content here rest located replaced written ih =>
    have hlocated := written.keepsDirectories.locate located
    have hcons := lastAt_cons t'' (path, content) rest place
    rw [hlocated] at hcons
    cases hlast : lastAt t'' rest place with
    | some last =>
      rw [hcons, hlast]
      refine ⟨fun c hc => ?_, by simp⟩
      obtain rfl : last = c := by simpa using hc
      exact ih.1 last hlast
    | none =>
      have hspared := ih.2 hlast
      rw [hcons, hlast]
      by_cases hplace : here = place
      · subst hplace
        refine ⟨fun c hc => ?_, by simp [Except.toOption]⟩
        obtain rfl : content = c := by simpa [Except.toOption] using hc
        -- a file that is there is no place for a directory
        rcases hspared with hsame | ⟨hnone, -⟩
        · exact hsame.trans replaced.holds
        · simp [replaced.holds] at hnone
      · refine ⟨by simp [Except.toOption, hplace], fun _ => ?_⟩
        exact (replaced.others place (Ne.symm hplace)).trans hspared

/-- Files whose places are different all hold their contents in the end. -/
theorem read_eq (h : Written t files t') (hapart : files.Pairwise fun p q => t'.locate p.1 ≠ t'.locate q.1) :
    ∀ p ∈ files, t'.read p.1 = .ok p.2.toUTF8 := by
  intro p hp
  obtain ⟨place, hplace⟩ := h.exists_locate p hp
  have hlast := lastAt_of_mem hapart hp hplace
  have hnode := (h.node?_eq place).1 p.2 hlast
  unfold Files.Tree.read Files.Tree.readFrom
  rw [show t'.locateFrom Files.Path.top p.1 = .ok place from hplace]
  simp [hnode, bind, Except.bind, pure, Except.pure]

end Written

/-- What writing files one after another comes to: all are written, or those before one that cannot be. -/
inductive WroteAll (check : Check) (files : Table Files.Path String) (d : Disk) :
    Except Failure PUnit × Disk → Prop
  | done {d' : Disk} (written : Written d.files files d'.files) : WroteAll check files d (.ok ⟨⟩, d')
  | stopped {done rest : Table Files.Path String} {p : Files.Path × String} {before d' : Disk} {e : Failure}
      (split : files = done ++ p :: rest) (written : Written d.files done before.files)
      (stops : outcome (write check p.1 p.2) before = (.error e, d')) : WroteAll check files d (.error e, d')

lemma wroteAll_forM (check : Check) (files : Table Files.Path String) (d : Disk) :
    WroteAll check files d (outcome (files.forM fun p => write check p.1 p.2) d) := by
  induction files generalizing d with
  | nil => exact .done (.none (.refl _))
  | cons p files ih =>
    rw [outcome_forM_cons]
    have hwrote := wrote_write check p.1 p.2 d
    generalize hr : outcome (write check p.1 p.2) d = r at hwrote
    cases hwrote with
    | @failed e d₁ spared =>
      rw [outcome_bind_of_error hr]
      exact .stopped (List.nil_append _).symm (.none (.refl _)) hr
    | @done d₁ place located replaced =>
      rw [outcome_bind_of_ok hr]
      have hrest := ih d₁
      generalize outcome (files.forM fun p => write check p.1 p.2) d₁ = r at hrest ⊢
      cases hrest with
      | done written => exact .done (.more located replaced written)
      | @stopped done rest q before d' e split written stops =>
        have hsplit : p :: files = (p :: done) ++ q :: rest := congrArg (p :: ·) split
        exact .stopped hsplit (.more located replaced written) stops

/-! ## A set of files -/

/-- A choice among members that changes nothing for one of them changes nothing. -/
lemma outcome_filterM_snd {σ α : Type} {f : α → ExceptT Failure (StateM σ) Bool}
    (hf : ∀ a s, s = (outcome (f a) s).2) (xs : List α) (s : σ) : s = (outcome (xs.filterM f) s).2 := by
  have hchosen (xs acc : List α) (s : σ) : s = (outcome (xs.filterAuxM f acc) s).2 := by
    induction xs generalizing acc s with
    | nil => rfl
    | cons a xs ih => exact outcome_bind_leads Eq.trans (hf a s) fun b t _ => ih _ t
  exact outcome_bind_leads Eq.trans (hchosen xs [] s) fun chosen t _ => rfl

/-- The part of writing that comes after the files were looked for. -/
def replaceAll (check : Check) (options : OutputOptions) (files : Table Files.Path String) :
    WriteM (List Files.Path) := do
  files.forM fun p => write (check.orNone options.validateBeforeWrite.truthy) p.1 p.2
  return files.map (·.1)

/-- What writing sources comes to: a failure that changes nothing, or files that are written up to one that cannot
be. -/
inductive WroteSources (check : Check) (output : Files.Path) (l : Option Language) (sources : Render.Sources)
    (group : Group OutputOptions) (d : Disk) : Except Failure (List Files.Path) × Disk → Prop
  | refused {e : Failure} : WroteSources check output l sources group d (.error e, d)
  | replaced {options : OutputOptions} {files : Table Files.Path String} {d' : Disk}
      (targeted : targets output l sources = .ok files) (grouped : optionsOf group = .ok options)
      (written : Written d.files files d'.files) :
      WroteSources check output l sources group d (.ok (files.map (·.1)), d')
  | stopped {options : OutputOptions} {done rest : Table Files.Path String} {p : Files.Path × String}
      {before d' : Disk} {e : Failure} (targeted : targets output l sources = .ok (done ++ p :: rest))
      (grouped : optionsOf group = .ok options) (written : Written d.files done before.files)
      (stops : outcome (write (check.orNone options.validateBeforeWrite.truthy) p.1 p.2) before = (.error e, d')) :
      WroteSources check output l sources group d (.error e, d')

theorem wroteSources_writeAllWith (check : Check) (output : Files.Path) (l : Option Language) (sources : Render.Sources)
    (group : Group OutputOptions) (d : Disk) :
    WroteSources check output l sources group d (outcome (writeAllWith check output l sources group) d) := by
  unfold writeAllWith
  cases htargets : targets output l sources with
  | error e => exact .refused
  | ok files =>
    rw [outcome_bind_of_ok (outcome_lift _ d)]
    cases hgroup : optionsOf group with
    | error e => exact .refused
    | ok options =>
      rw [outcome_bind_of_ok (outcome_lift _ d)]
      have hreplace : WroteSources check output l sources group d (outcome (replaceAll check options files) d) := by
        have hall := wroteAll_forM (check.orNone options.validateBeforeWrite.truthy) files d
        unfold replaceAll
        generalize hr : outcome (files.forM _) d = r at hall
        cases hall with
        | done written =>
          rw [outcome_bind_of_ok hr]
          exact .replaced htargets hgroup written
        | stopped split written stops =>
          rw [outcome_bind_of_error hr]
          exact .stopped (split ▸ htargets) hgroup written stops
      have hlook : d = (outcome (files.filterM fun p => do lift (isThere (← get).files p.1)) d).2 :=
        outcome_filterM_snd (fun _ _ => rfl) files d
      dsimp only
      split
      · rcases hpresent : outcome (files.filterM _) d with ⟨e | present, d₁⟩ <;>
          rw [hpresent] at hlook <;> obtain rfl : d = d₁ := hlook
        · rw [outcome_bind_of_error hpresent]
          exact .refused
        · rw [outcome_bind_of_ok hpresent]
          split
          · exact .refused
          · exact hreplace
      · exact hreplace

/-- A Python module is written, or nothing is changed but that directories may have been made. -/
theorem spares_of_writeAllWith_python {check : Check} {output : Files.Path} {sources : Render.Sources}
    {group : Group OutputOptions} {d d' : Disk} {e : Failure}
    (hfails : outcome (writeAllWith check output (some .python) sources group) d = (.error e, d')) :
    d.files.Spares d'.files := by
  have hwrote := wroteSources_writeAllWith check output (some .python) sources group d
  rw [hfails] at hwrote
  cases hwrote with
  | refused => exact .refl _
  | @stopped options done rest p before _ _ targeted grouped written stops =>
    have hfailed := wrote_write (check.orNone options.validateBeforeWrite.truthy) p.1 p.2 before
    rw [stops] at hfailed
    -- there is one target only, so that none comes before the one that fails
    obtain rfl : done = [] := by
      rcases sources with _ | ⟨⟨name, content⟩, _ | ⟨source, sources⟩⟩
      · cases targeted
      · have hsplit : [(output, content)] = done ++ p :: rest := Except.ok.inj targeted
        cases done with
        | nil => rfl
        | cons q done => simp at hsplit
      · cases targeted
    cases written with
    | none spared =>
      cases hfailed with
      | failed spared' => exact spared.trans spared'

/-- Where sources are written, each place that targets lead to holds the content of the last of them; where that
fails, this goes for the targets before the one that it fails at, and for none if it fails before. Nothing else is
changed, but that directories may have been made. -/
theorem files_of_writeAllWith (check : Check) (output : Files.Path) (l : Option Language) (sources : Render.Sources)
    (group : Group OutputOptions) (d : Disk) :
    ∃ r d' done, outcome (writeAllWith check output l sources group) d = (r, d') ∧
      (∀ place,
        (∀ content, lastAt d'.files done place = some content →
          d'.files.node? place = some (.file content.toUTF8)) ∧
        (lastAt d'.files done place = none → d.files.SparesAt d'.files place)) ∧
      (done.Pairwise (fun p q => d'.files.locate p.1 ≠ d'.files.locate q.1) →
        ∀ p ∈ done, d'.files.read p.1 = .ok p.2.toUTF8) ∧
      match r with
      | .ok paths => targets output l sources = .ok done ∧ paths = done.map (·.1)
      | .error e => (done = [] ∧ d' = d) ∨ ∃ options p rest before,
          targets output l sources = .ok (done ++ p :: rest) ∧ optionsOf group = .ok options ∧
            outcome (write (check.orNone options.validateBeforeWrite.truthy) p.1 p.2) before = (.error e, d') := by
  have hwrote := wroteSources_writeAllWith check output l sources group d
  generalize outcome (writeAllWith check output l sources group) d = r at hwrote ⊢
  cases hwrote with
  | @refused e =>
    have hwritten : Written d.files [] d.files := .none (.refl _)
    exact ⟨.error e, d, [], rfl, hwritten.node?_eq, hwritten.read_eq, .inl ⟨rfl, rfl⟩⟩
  | @replaced options files d' targeted grouped written =>
    exact ⟨.ok (files.map (·.1)), d', files, rfl, written.node?_eq, written.read_eq, targeted, rfl⟩
  | @stopped options done rest p before d' e targeted grouped written stops =>
    have hfailed := wrote_write (check.orNone options.validateBeforeWrite.truthy) p.1 p.2 before
    rw [stops] at hfailed
    cases hfailed with
    | failed spared =>
      have hwritten := written.spares spared
      exact ⟨.error e, d', done, rfl, hwritten.node?_eq, hwritten.read_eq,
        .inr ⟨options, p, rest, before, targeted, grouped, stops⟩⟩

/-! ### Two classes, of which the second does not close its brace -/

namespace Halved

def sources : Render.Sources :=
  [("A.java", "class A \x7b\x7d"), ("B.java", "class B \x7b")]

def begun : Disk :=
  ⟨⟨[(["work"], .directory)]⟩, #[]⟩

def last : Disk :=
  ⟨⟨[(["work", "A.java"], .file "class A \x7b\x7d".toUTF8), (["work"], .directory)]⟩, #[.wrote "/work/A.java"]⟩

end Halved

/-- The second class is refused, and the first one is written nevertheless. -/
theorem partly_written :
    outcome (writeAll ⟨.single, ["work"]⟩ (some .java) Halved.sources (.options {})) Halved.begun =
        (.error (.unbalancedBraces 1 0), Halved.last) ∧
      Halved.begun.files.node? ["work", "A.java"] = none ∧
      Halved.last.files.node? ["work", "A.java"] = some (.file "class A \x7b\x7d".toUTF8) := by
  refine ⟨?_, rfl, rfl⟩
  simp only [writeAll, writeAllWith, write, makeDirectories, isThere, passable_eq]
  rfl

end SchemaAccessors.Output
