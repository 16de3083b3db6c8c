import Mathlib.Data.List.TakeDrop
import Mathlib.Data.List.TakeWhile
import Mathlib.Tactic.Common
import SchemaAccessors.Uri.Reference

/-!
# URIs without a fragment

Taking the fragment off a URI leaves no `#`, so a URI that had its fragment taken off is left as it is the next
time. The document that a reference leads to is asked for and kept under one and the same URI. Where taking it
off leaves a URI as it is, this does not depend on the fragment.
-/

namespace SchemaAccessors.Uri

/-! ## Cutting at a mark -/

lemma fst_cut (mark : Char) (text : List Char) : (cut mark text).1 = text.takeWhile (· ≠ mark) := by
  unfold cut
  rw [List.span_eq_takeWhile_dropWhile]
  cases List.dropWhile (· ≠ mark) text <;> rfl

lemma mark_notMem_cut (mark : Char) (text : List Char) : mark ∉ (cut mark text).1 := by
  rw [fst_cut]
  intro h
  simpa using List.mem_takeWhile_imp h

lemma fst_cut_subset (mark : Char) (text : List Char) : (cut mark text).1 ⊆ text := by
  rw [fst_cut]
  exact (List.takeWhile_sublist _).subset

lemma snd_cut_subset (mark : Char) (text : List Char) : (cut mark text).2.getD [] ⊆ text := by
  unfold cut
  rw [List.span_eq_takeWhile_dropWhile]
  have hdrop : text.dropWhile (· ≠ mark) ⊆ text := (List.dropWhile_sublist _).subset
  cases h : List.dropWhile (· ≠ mark) text with
  | nil => simp
  | cons c rest =>
    rw [h] at hdrop
    exact fun x hx => hdrop (List.mem_cons_of_mem _ hx)

lemma cut_append_cons {mark : Char} {before : List Char} (h : mark ∉ before) (after : List Char) :
    cut mark (before ++ mark :: after) = (before, some after) := by
  have hbefore : ∀ c ∈ before, decide (c ≠ mark) = true := by
    intro c hc
    rw [decide_eq_true_eq]
    rintro rfl
    exact h hc
  have htake : (before ++ mark :: after).takeWhile (· ≠ mark) = before := by
    rw [List.takeWhile_append_of_pos hbefore]
    simp
  have hdrop : (before ++ mark :: after).dropWhile (· ≠ mark) = mark :: after := by
    rw [List.dropWhile_append_of_pos hbefore]
    simp
  unfold cut
  rw [List.span_eq_takeWhile_dropWhile, htake, hdrop]

lemma cutParams_subset (path : List Char) : (cutParams path).1 ⊆ path ∧ (cutParams path).2 ⊆ path := by
  have hlast : (path.reverse.takeWhile (· ≠ '/')).reverse ⊆ path := fun x hx =>
    List.mem_reverse.1 ((List.takeWhile_sublist _).subset (List.mem_reverse.1 hx))
  have hfst := fst_cut_subset ';' (path.reverse.takeWhile (· ≠ '/')).reverse
  have hsnd := snd_cut_subset ';' (path.reverse.takeWhile (· ≠ '/')).reverse
  dsimp only [cutParams]
  split
  · next before params h =>
    rw [h] at hfst hsnd
    refine ⟨fun x hx => ?_, fun x hx => hlast (hsnd hx)⟩
    rcases List.mem_append.1 hx with hx | hx
    · exact (List.take_sublist _ _).subset hx
    · exact hlast (hfst hx)
  · exact ⟨fun x hx => hx, List.nil_subset _⟩

/-! ## The parts before the fragment -/

lemma toLower_ne_hash {c : Char} (h : c ≠ '#') : c.toLower ≠ '#' := by
  intro hc
  unfold Char.toLower at hc
  split at hc
  · next hu =>
    have hval := congrArg (fun d : Char => d.val.toNat) hc
    have hlow : 65 ≤ c.val.toNat := UInt32.le_iff_toNat_le.1 hu.1
    have hhigh : c.val.toNat ≤ 90 := UInt32.le_iff_toNat_le.1 hu.2
    simp only [UInt32.toNat_add] at hval
    change (c.val.toNat + 32) % 2 ^ 32 = 35 at hval
    omega
  · exact h hc

/-- What a scheme is made of has no `#` in it. -/
lemma hash_notMem_cutScheme {text scheme rest : List Char} (h : cutScheme text = some (scheme, rest)) :
    '#' ∉ scheme := by
  unfold cutScheme at h
  split at h
  · next c tail after hcut =>
    split at h
    · next hc =>
      simp only [Option.some.injEq, Prod.mk.injEq] at h
      rw [← h.1]
      intro hm
      obtain ⟨d, hd, hlower⟩ := List.mem_map.1 hm
      refine toLower_ne_hash ?_ hlower
      rintro rfl
      simp only [Bool.and_eq_true, List.all_eq_true] at hc
      rcases List.mem_cons.1 hd with rfl | hd
      · exact absurd hc.1 (by decide)
      · exact absurd (hc.2 _ hd) (by decide)
    · simp at h
  · simp at h

lemma hash_notMem_cutAuthority (text : List Char) : '#' ∉ (cutAuthority text).1 := by
  unfold cutAuthority
  split
  · rw [List.span_eq_takeWhile_dropWhile]
    intro h
    simpa using List.mem_takeWhile_imp h
  · simp

/-- The parts of a URI, but for the fragment, have no `#` in them. -/
lemma hash_notMem_of_parts {fallback text : List Char} {p : Parts} (hfallback : '#' ∉ fallback)
    (h : parts fallback text = .ok p) :
    '#' ∉ p.scheme ∧ '#' ∉ p.authority ∧ '#' ∉ p.path ∧ '#' ∉ p.params ∧ '#' ∉ p.query := by
  dsimp only [parts] at h
  set found := (cutScheme (overlook text)).getD (fallback, overlook text) with hfound
  have hscheme : '#' ∉ found.1 := by
    cases hs : cutScheme (overlook text) with
    | none => simpa [hfound, hs] using hfallback
    | some cutting =>
      rw [hfound, hs]
      have hcut : '#' ∉ cutting.1 := hash_notMem_cutScheme hs
      exact hcut
  split at h
  · simp at h
  · simp only [Except.ok.injEq] at h
    have hrest := mark_notMem_cut '#' (cutAuthority found.2).2
    set rest := (cut '#' (cutAuthority found.2).2).1
    have hpath : '#' ∉ (cut '?' rest).1 := fun hx => hrest (fst_cut_subset _ _ hx)
    have hquery : '#' ∉ (cut '?' rest).2.getD [] := fun hx => hrest (snd_cut_subset _ _ hx)
    have hparams := cutParams_subset (cut '?' rest).1
    subst h
    refine ⟨hscheme, hash_notMem_cutAuthority _, ?_, ?_, hquery⟩
    · simp only
      split
      · exact fun hx => hpath (hparams.1 hx)
      · exact hpath
    · simp only
      split
      · exact fun hx => hpath (hparams.2 hx)
      · simp

lemma hash_notMem_behind {mark : Char} {part : List Char} (hm : mark ≠ '#') (h : '#' ∉ part) :
    '#' ∉ behind mark part := by
  unfold behind
  split
  · simp
  · simp [h, hm.symm]

/-- Parts without a `#` make a URI without one. -/
lemma hash_notMem_toList {p : Parts} (hscheme : '#' ∉ p.scheme) (hauthority : '#' ∉ p.authority)
    (hpath : '#' ∉ p.path) (hparams : '#' ∉ p.params) (hquery : '#' ∉ p.query) :
    '#' ∉ ({ p with fragment := [] } : Parts).toList := by
  have hwhole : '#' ∉ p.path ++ behind ';' p.params := by
    simp [hpath, hash_notMem_behind (show ';' ≠ '#' by decide) hparams]
  have hlocated : '#' ∉ ({ p with fragment := [] } : Parts).located := by
    dsimp only [Parts.located]
    split
    · have hrooted : '#' ∉ (if (p.path ++ behind ';' p.params).isEmpty
          || (p.path ++ behind ';' p.params).head? = some '/' then p.path ++ behind ';' p.params
          else '/' :: (p.path ++ behind ';' p.params)) := by
        split
        · exact hwhole
        · intro hx
          rcases List.mem_cons.1 hx with hx | hx
          · exact absurd hx (by decide)
          · exact hwhole hx
      intro hx
      rcases List.mem_append.1 hx with hx | hx
      · simp only [List.mem_cons] at hx
        rcases hx with hx | hx | hx
        · exact absurd hx (by decide)
        · exact absurd hx (by decide)
        · exact hauthority hx
      · exact hrooted hx
    · exact hwhole
  have hbefore : '#' ∉ (if p.scheme.isEmpty then [] else p.scheme ++ [':']) := by
    split
    · simp
    · simp [hscheme]
  simp only [Parts.toList, List.mem_append, not_or]
  exact ⟨⟨⟨hbefore, hlocated⟩, hash_notMem_behind (by decide) hquery⟩,
    by simp [behind]⟩

/-! ## Taking the fragment off -/

lemma hash_notMem_of_defragment {uri document fragment : String}
    (h : defragment uri = .ok (document, fragment)) : '#' ∉ document.toList := by
  unfold defragment at h
  split at h
  · cases hp : parts [] uri.toList with
    | error fault => simp [hp, bind, Except.bind] at h
    | ok p =>
      simp only [hp, bind, Except.bind, pure, Except.pure, Except.ok.injEq, Prod.mk.injEq] at h
      obtain ⟨hscheme, hauthority, hpath, hparams, hquery⟩ :=
        hash_notMem_of_parts List.not_mem_nil hp
      rw [← h.1, String.toList_ofList]
      exact hash_notMem_toList hscheme hauthority hpath hparams hquery
  · next hno =>
    simp only [pure, Except.pure, Except.ok.injEq, Prod.mk.injEq] at h
    rw [← h.1]
    simpa using hno

/-- A URI that had its fragment taken off is left as it is. -/
theorem defragment_of_defragment {uri document fragment : String}
    (h : defragment uri = .ok (document, fragment)) : defragment document = .ok (document, "") := by
  have hno := hash_notMem_of_defragment h
  unfold defragment
  rw [if_neg (by simpa using hno)]
  rfl

/-! ## A fragment put behind a URI

Nothing before the `#` is read with an eye to what stands behind it. A colon in the fragment ends no scheme,
because the `#` in front of it cannot belong to one. -/

lemma overlook_append_hash (before : List Char) {fragment : List Char}
    (hfragment : ∀ c ∈ fragment, c ≠ '\t' ∧ c ≠ '\r' ∧ c ≠ '\n') :
    overlook (before ++ '#' :: fragment) = overlook before ++ '#' :: fragment := by
  have hkept : (fragment.filter fun c => c ≠ '\t' && c ≠ '\r' && c ≠ '\n') = fragment := by
    rw [List.filter_eq_self]
    intro c hc
    obtain ⟨htab, hreturn, hfeed⟩ := hfragment c hc
    simp [htab, hreturn, hfeed]
  have hdrop : ((before ++ '#' :: fragment).dropWhile fun c => c.toNat ≤ 0x20)
      = (before.dropWhile fun c => c.toNat ≤ 0x20) ++ '#' :: fragment := by
    rw [List.dropWhile_append]
    split
    · next hempty =>
      rw [List.isEmpty_iff.1 hempty, List.nil_append, List.dropWhile_cons_of_neg (by decide)]
    · rfl
  unfold overlook
  rw [hdrop, List.filter_append, List.filter_cons_of_pos (by decide), hkept]

lemma cut_append_of_mem {mark : Char} {text : List Char} (h : mark ∈ text) (rest : List Char) :
    ∃ before after, cut mark text = (before, some after)
      ∧ cut mark (text ++ rest) = (before, some (after ++ rest)) := by
  obtain ⟨before, after, rfl, hbefore⟩ := List.eq_append_cons_of_mem h
  refine ⟨before, after, cut_append_cons hbefore after, ?_⟩
  rw [List.append_assoc, List.cons_append]
  exact cut_append_cons hbefore (after ++ rest)

lemma cut_of_notMem {mark : Char} {text : List Char} (h : mark ∉ text) : cut mark text = (text, none) := by
  have hall : ∀ c ∈ text, decide (c ≠ mark) = true := by
    intro c hc
    rw [decide_eq_true_eq]
    rintro rfl
    exact h hc
  have htake : text.takeWhile (· ≠ mark) = text := List.takeWhile_eq_self_iff.2 hall
  have hdrop : text.dropWhile (· ≠ mark) = [] := List.dropWhile_eq_nil_iff.2 hall
  unfold cut
  rw [List.span_eq_takeWhile_dropWhile, htake, hdrop]

lemma cutScheme_append_hash (text fragment : List Char) :
    cutScheme (text ++ '#' :: fragment)
      = (cutScheme text).map fun found => (found.1, found.2 ++ '#' :: fragment) := by
  by_cases hcolon : ':' ∈ text
  · obtain ⟨before, after, hcut, hcut'⟩ := cut_append_of_mem hcolon ('#' :: fragment)
    unfold cutScheme
    rw [hcut, hcut']
    cases before with
    | nil => rfl
    | cons c rest =>
      dsimp only
      split <;> rfl
  · have hnone : cutScheme text = none := by
      unfold cutScheme
      rw [cut_of_notMem hcolon]
      cases text <;> rfl
    rw [hnone, Option.map_none]
    unfold cutScheme
    split
    · next c rest after hcut =>
      have hbefore : c :: rest = (cut ':' (text ++ '#' :: fragment)).1 := by rw [hcut]
      rw [fst_cut, List.takeWhile_append_of_pos (by simpa using fun d hd => ne_of_mem_of_not_mem hd hcolon),
        List.takeWhile_cons_of_pos (by decide)] at hbefore
      rw [if_neg]
      intro hscheme
      simp only [Bool.and_eq_true, List.all_eq_true] at hscheme
      have hhash : '#' ∈ c :: rest := by simp [hbefore]
      rcases List.mem_cons.1 hhash with rfl | hhash
      · exact absurd hscheme.1 (by decide)
      · exact absurd (hscheme.2 _ hhash) (by decide)
    · rfl

/-- A span that some character ends is not changed by what is put behind that character. -/
lemma span_append_cons {p : Char → Bool} {mark : Char} (hmark : p mark = false) (text rest : List Char) :
    (text ++ mark :: rest).span p = ((text.span p).1, (text.span p).2 ++ mark :: rest) := by
  simp only [List.span_eq_takeWhile_dropWhile, Prod.mk.injEq]
  induction text with
  | nil => simp [hmark]
  | cons c text ih =>
    rw [List.cons_append]
    cases hc : p c with
    | true =>
      rw [List.takeWhile_cons_of_pos hc, List.takeWhile_cons_of_pos hc, List.dropWhile_cons_of_pos hc,
        List.dropWhile_cons_of_pos hc]
      exact ⟨congrArg (c :: ·) ih.1, ih.2⟩
    | false =>
      have hnot : ¬ p c = true := by simp [hc]
      rw [List.takeWhile_cons_of_neg hnot, List.takeWhile_cons_of_neg hnot, List.dropWhile_cons_of_neg hnot,
        List.dropWhile_cons_of_neg hnot]
      exact ⟨rfl, rfl⟩

lemma cutAuthority_append_hash (text fragment : List Char) :
    cutAuthority (text ++ '#' :: fragment)
      = ((cutAuthority text).1, (cutAuthority text).2 ++ '#' :: fragment) := by
  by_cases hslashes : ∃ rest, text = '/' :: '/' :: rest
  · obtain ⟨rest, rfl⟩ := hslashes
    exact span_append_cons (by decide) rest fragment
  · have hwhole : ∀ rest, text ++ '#' :: fragment ≠ '/' :: '/' :: rest := by
      intro rest h
      rcases text with _ | ⟨c, _ | ⟨d, tail⟩⟩
      · exact absurd (List.cons.inj h).1 (by decide)
      · exact absurd (List.cons.inj (List.cons.inj h).2).1 (by decide)
      · obtain ⟨hc, htail⟩ := List.cons.inj h
        obtain ⟨hd, -⟩ := List.cons.inj htail
        exact hslashes ⟨tail, by rw [hc, hd]⟩
    rw [cutAuthority, cutAuthority]
    · exact fun rest h => hslashes ⟨rest, h⟩
    · exact hwhole

lemma snd_cutScheme_subset {text scheme rest : List Char} (h : cutScheme text = some (scheme, rest)) :
    rest ⊆ text := by
  have hsubset := snd_cut_subset ':' text
  unfold cutScheme at h
  split at h
  · next c tail after hcut =>
    rw [hcut] at hsubset
    split at h
    · simp only [Option.some.injEq, Prod.mk.injEq] at h
      rwa [← h.2]
    · simp at h
  · simp at h

lemma snd_cutAuthority_subset (text : List Char) : (cutAuthority text).2 ⊆ text := by
  unfold cutAuthority
  split
  · rw [List.span_eq_takeWhile_dropWhile]
    exact fun c hc => List.mem_cons_of_mem _ (List.mem_cons_of_mem _ ((List.dropWhile_sublist _).subset hc))
  · exact fun c hc => hc

/-- Parts of a URI with a fragment are the parts of the URI, and the fragment. -/
lemma parts_append_hash {before fragment : List Char} (hbefore : '#' ∉ before)
    (hfragment : ∀ c ∈ fragment, c ≠ '\t' ∧ c ≠ '\r' ∧ c ≠ '\n') :
    parts [] (before ++ '#' :: fragment) = (parts [] before).map fun p => { p with fragment := fragment } := by
  have hoverlook : '#' ∉ overlook before := fun h =>
    hbefore ((List.dropWhile_sublist _).subset (List.mem_filter.1 h).1)
  set seen := overlook before
  obtain ⟨scheme, rest, hfound, hfound', hrest⟩ : ∃ scheme rest,
      (cutScheme seen).getD ([], seen) = (scheme, rest)
        ∧ (cutScheme (seen ++ '#' :: fragment)).getD ([], seen ++ '#' :: fragment) = (scheme, rest ++ '#' :: fragment)
        ∧ rest ⊆ seen := by
    rw [cutScheme_append_hash]
    cases hscheme : cutScheme seen with
    | none => exact ⟨[], seen, rfl, rfl, fun c hc => hc⟩
    | some found => exact ⟨found.1, found.2, rfl, rfl, snd_cutScheme_subset hscheme⟩
  have hauthority : '#' ∉ (cutAuthority rest).2 := fun h => hoverlook (hrest (snd_cutAuthority_subset rest h))
  dsimp only [parts]
  rw [overlook_append_hash before hfragment, hfound, hfound', cutAuthority_append_hash]
  dsimp only
  rw [cut_append_cons hauthority, cut_of_notMem hauthority]
  split <;> rfl

/-- A URI that is left as it is with an empty fragment behind it is left as it is with any. -/
theorem defragment_append_hash {uri fragment : String} (huri : defragment (uri ++ "#") = .ok (uri, ""))
    (hfragment : ∀ c ∈ fragment.toList, c ≠ '\t' ∧ c ≠ '\r' ∧ c ≠ '\n') :
    defragment (uri ++ "#" ++ fragment) = .ok (uri, fragment) := by
  have hbefore : '#' ∉ uri.toList := hash_notMem_of_defragment huri
  have hwhole : (uri ++ "#" ++ fragment).toList = uri.toList ++ '#' :: fragment.toList := by
    simp
  have hempty : (uri ++ "#").toList = uri.toList ++ ['#'] := by
    simp
  unfold defragment at huri ⊢
  rw [hempty, if_pos (by simp), parts_append_hash hbefore (by simp)] at huri
  rw [hwhole, if_pos (by simp), parts_append_hash hbefore hfragment]
  cases hparts : parts [] uri.toList with
  | error fault =>
    rw [hparts] at huri
    cases huri
  | ok p =>
    rw [hparts] at huri
    have hsame : String.ofList ({ p with fragment := [] } : Parts).toList = uri :=
      congrArg Prod.fst (Except.ok.inj huri)
    show Except.ok (String.ofList ({ p with fragment := [] } : Parts).toList, String.ofList fragment.toList) = _
    rw [hsame, String.ofList_toList]

end SchemaAccessors.Uri
