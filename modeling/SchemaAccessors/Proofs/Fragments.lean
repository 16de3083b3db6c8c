import SchemaAccessors.Proofs.Outcome
import SchemaAccessors.Proofs.Pointers

/-!
# References of nothing but a fragment

A reference within a document is a `#` with a pointer behind it, and it is joined to the base like any other
reference: the base is taken apart, and put together again with the fragment. Where references may be relative to
the base and putting it together gives it back, the fragment comes to stand behind the base. Otherwise it comes to
stand behind another text, or behind none. No URI gets a `#` from being joined.
-/

namespace SchemaAccessors.Uri

/-! ## Bases that take fragments -/

/-- References may be relative to a URI, and its parts make that URI again. -/
def TakesFragments (uri : String) : Prop :=
  ∃ p, parts [] uri.toList = .ok p ∧ schemeIn relativeSchemes p.scheme = true ∧ p.toList = uri.toList

instance (uri : String) : Decidable (TakesFragments uri) :=
  match h : parts [] uri.toList with
  | .ok p =>
    decidable_of_iff (schemeIn relativeSchemes p.scheme = true ∧ p.toList = uri.toList)
      ⟨fun hp => ⟨p, h, hp⟩, fun ⟨q, hq, hp⟩ => by cases h.symm.trans hq; exact hp⟩
  | .error _ => isFalse fun ⟨_, hq, _⟩ => nomatch h.symm.trans hq

/-- The reference to a location from within its document. -/
def within (keys : List String) : String :=
  String.ofList ('#' :: fragmentOf keys)

/-- A pointer has no character in it that is overlooked. -/
lemma unbroken_fragmentOf (keys : List String) : ∀ c ∈ fragmentOf keys, c ≠ '\t' ∧ c ≠ '\r' ∧ c ≠ '\n' := by
  intro c hc
  obtain ⟨key, -, hc⟩ := List.mem_flatMap.1 hc
  rcases List.mem_cons.1 hc with rfl | hc
  · decide
  · refine ⟨?_, ?_, ?_⟩ <;> rintro rfl <;> exact notMem_encodeSegment (by decide) (by decide) (by decide) _ hc

lemma isPointer_fragmentOf (keys : List String) :
    String.ofList (fragmentOf keys) = "" ∨ (String.ofList (fragmentOf keys)).startsWith "/" := by
  cases keys with
  | nil => exact .inl rfl
  | cons key keys => exact .inr (by simp [fragmentOf])

/-- The parts of a fragment alone. -/
lemma parts_hash {scheme fragment : List Char} (hfragment : ∀ c ∈ fragment, c ≠ '\t' ∧ c ≠ '\r' ∧ c ≠ '\n') :
    parts scheme ('#' :: fragment) = .ok ⟨scheme, [], [], [], [], fragment⟩ := by
  have hoverlook : overlook ('#' :: fragment) = '#' :: fragment := overlook_append_hash [] hfragment
  have hscheme : cutScheme ('#' :: fragment) = none := cutScheme_append_hash [] fragment
  have hauthority : cutAuthority ('#' :: fragment) = ([], '#' :: fragment) := cutAuthority_append_hash [] fragment
  have hcut : cut '#' ('#' :: fragment) = ([], some fragment) := cut_append_cons List.not_mem_nil fragment
  have hparams : (if schemeIn paramsSchemes scheme then cutParams [] else ([], [])) = ([], []) := by
    split <;> rfl
  have hnofault : authorityFault? [] = none := rfl
  have hmark : cut '?' [] = ([], none) := rfl
  dsimp only [parts]
  rw [hoverlook, hscheme, Option.getD_none, hauthority, hnofault]
  dsimp only
  rw [hcut]
  dsimp only
  rw [hmark]
  dsimp only
  rw [hparams]
  rfl

lemma fragment_of_parts {fallback text : List Char} {p : Parts} (h : parts fallback text = .ok p) (hhash : '#' ∉ text) :
    p.fragment = [] := by
  have hseen : '#' ∉ overlook text := fun hmem =>
    hhash ((List.dropWhile_sublist _).subset (List.mem_filter.1 hmem).1)
  dsimp only [parts] at h
  set found := (cutScheme (overlook text)).getD (fallback, overlook text) with hfound
  have hrest : '#' ∉ found.2 := by
    cases hs : cutScheme (overlook text) with
    | none =>
      rw [hfound, hs]
      exact hseen
    | some cutting =>
      rw [hfound, hs]
      exact fun hmem => hseen (snd_cutScheme_subset hs hmem)
  have hbehind : '#' ∉ (cutAuthority found.2).2 := fun hmem => hrest (snd_cutAuthority_subset _ hmem)
  split at h
  · cases h
  · rw [cut_of_notMem hbehind] at h
    obtain rfl := Except.ok.inj h
    rfl

/-! ## Joined to a base -/

lemma schemeIn_authoritySchemes {scheme : List Char} (h : schemeIn relativeSchemes scheme = true) :
    schemeIn authoritySchemes scheme = true := by
  have hsubset : ∀ name ∈ relativeSchemes, name ∈ authoritySchemes := by decide
  simp only [schemeIn, List.contains_iff_mem] at h ⊢
  exact hsubset _ h

/-- A fragment is put behind the parts of the base, where references may be relative to it. -/
theorem join_hash {base : String} {fragment : List Char} (hbase : base ≠ "")
    (hfragment : ∀ c ∈ fragment, c ≠ '\t' ∧ c ≠ '\r' ∧ c ≠ '\n') :
    join base (String.ofList ('#' :: fragment)) = (parts [] base.toList).map fun p =>
      String.ofList
        (if schemeIn relativeSchemes p.scheme then { p with fragment := fragment }.toList else '#' :: fragment) := by
  unfold join
  rw [if_neg (by simpa using hbase), if_neg (by simp), String.toList_ofList]
  cases hparts : parts [] base.toList with
  | error fault => rfl
  | ok b =>
    simp only [bind, Except.bind, pure, Except.pure, parts_hash hfragment, Except.map]
    by_cases hrelative : schemeIn relativeSchemes b.scheme = true
    · have hauthority := schemeIn_authoritySchemes hrelative
      simp [hrelative, hauthority]
    · simp [hrelative]

lemma toList_with_fragment {p : Parts} (h : p.fragment = []) (fragment : List Char) :
    ({ p with fragment := fragment } : Parts).toList = p.toList ++ behind '#' fragment := by
  have hnothing : behind '#' p.fragment = [] := by
    rw [h]
    rfl
  rw [Parts.toList, Parts.toList, hnothing, List.append_nil]
  rfl

lemma toList_foldl_append_eq {uri : String} (huri : '#' ∉ uri.toList) (keys : List String) :
    (keys.foldl append uri).toList = uri.toList ++ behind '#' (fragmentOf keys) := by
  cases keys with
  | nil => exact (List.append_nil _).symm
  | cons key keys => exact toList_foldl_append huri (List.cons_ne_nil key keys)

/-- The reference to a location is joined to the URI of the location, if the base takes fragments, and only then. -/
theorem join_within_iff {base : String} (hbase : base ≠ "") (hhash : '#' ∉ base.toList) (keys : List String) :
    join base (within keys) = .ok (keys.foldl append base) ↔ TakesFragments base := by
  have hurl := toList_foldl_append_eq hhash keys
  rw [within, join_hash hbase (unbroken_fragmentOf keys), map_eq_ok]
  constructor
  · rintro ⟨p, hparts, htarget⟩
    rw [← String.toList_inj, String.toList_ofList, hurl] at htarget
    by_cases hrelative : schemeIn relativeSchemes p.scheme = true
    · rw [if_pos hrelative, toList_with_fragment (fragment_of_parts hparts hhash)] at htarget
      exact ⟨p, hparts, hrelative, List.append_cancel_right htarget⟩
    · -- what does not begin with the base is not the URI of a location
      rw [if_neg hrelative] at htarget
      obtain ⟨c, rest, hcons⟩ := List.exists_cons_of_ne_nil (fun h => hbase (String.toList_eq_nil_iff.1 h))
      rw [hcons, List.cons_append] at htarget
      rw [hcons] at hhash
      exact absurd (List.cons.inj htarget).1 (by rintro rfl; simp at hhash)
  · rintro ⟨p, hparts, hrelative, hwhole⟩
    refine ⟨p, hparts, ?_⟩
    rw [if_pos hrelative, ← String.toList_inj, String.toList_ofList, hurl,
      toList_with_fragment (fragment_of_parts hparts hhash), hwhole]

/-- Behind a base that takes fragments, a fragment is found again. -/
lemma defragment_of_takesFragments {base : String} (h : TakesFragments base) (hhash : '#' ∉ base.toList)
    {fragment : List Char} (hfragment : ∀ c ∈ fragment, c ≠ '\t' ∧ c ≠ '\r' ∧ c ≠ '\n') :
    defragment (String.ofList (base.toList ++ '#' :: fragment)) = .ok (base, String.ofList fragment) := by
  obtain ⟨p, hparts, -, hwhole⟩ := h
  have hfragmentless : ({ p with fragment := [] } : Parts) = p := by
    rw [← fragment_of_parts hparts hhash]
  unfold defragment
  rw [String.toList_ofList, if_pos (by simp), parts_append_hash hhash hfragment, hparts]
  show Except.ok (String.ofList ({ p with fragment := [] } : Parts).toList, String.ofList fragment) = _
  rw [hfragmentless, hwhole, String.ofList_toList]

/-- A reference within a document leads to the document and to the pointer that it is made of. -/
theorem exists_join_within {base : String} (h : TakesFragments base) (hhash : '#' ∉ base.toList)
    (keys : List String) :
    ∃ target, join base (within keys) = .ok target ∧
      defragment target = .ok (base, String.ofList (fragmentOf keys)) := by
  have hsplit := defragment_of_takesFragments h hhash (unbroken_fragmentOf keys)
  by_cases hbase : base = ""
  · rw [hbase] at hsplit ⊢
    exact ⟨within keys, rfl, hsplit⟩
  · refine ⟨keys.foldl append base, (join_within_iff hbase hhash keys).2 h, ?_⟩
    cases keys with
    | nil =>
      unfold defragment
      rw [List.foldl_nil, if_neg (by simpa using hhash)]
      rfl
    | cons key keys =>
      rw [← String.ofList_toList (s := List.foldl append base _), toList_foldl_append hhash (List.cons_ne_nil key keys)]
      exact hsplit

/-- Wherever the URI of a location is taken apart, its fragment is the pointer to that location. -/
lemma pointer_of_defragment {uri document fragment : String} {keys : List String} (huri : '#' ∉ uri.toList)
    (h : defragment (keys.foldl append uri) = .ok (document, fragment)) : pointer fragment = keys := by
  rw [← String.ofList_toList (s := keys.foldl append uri), toList_foldl_append_eq huri] at h
  suffices hfragment : fragment = String.ofList (fragmentOf keys) by
    rw [hfragment, pointer_fragmentOf]
  unfold defragment at h
  rw [String.toList_ofList] at h
  cases keys with
  | nil =>
    rw [if_neg (by simpa [behind, fragmentOf] using huri)] at h
    exact (congrArg Prod.snd (Except.ok.inj h)).symm
  | cons key keys =>
    have hbehind : behind '#' (fragmentOf (key :: keys)) = '#' :: fragmentOf (key :: keys) := rfl
    rw [hbehind, if_pos (by simp), parts_append_hash huri (unbroken_fragmentOf _)] at h
    cases hparts : parts [] uri.toList with
    | error fault =>
      rw [hparts] at h
      cases h
    | ok p =>
      rw [hparts] at h
      exact (congrArg Prod.snd (Except.ok.inj h)).symm

/-! ## Joined without a fragment -/

section Path

variable {mark : Char} {parts : List (List Char)} {part : List Char}

lemma subset_intercalate (h : part ∈ parts) : part ⊆ [mark].intercalate parts := by
  induction parts with
  | nil => cases h
  | cons first parts ih =>
    cases parts with
    | nil =>
      rw [List.intercalate_singleton, List.mem_singleton.1 h]
      exact List.Subset.refl _
    | cons second parts =>
      rw [List.intercalate_cons_cons]
      rcases List.mem_cons.1 h with rfl | h
      · exact fun c hc => List.mem_append_left _ (List.mem_append_left _ hc)
      · exact fun c hc => List.mem_append_right _ (ih h hc)

lemma notMem_intercalate {c : Char} (hmark : c ≠ mark) (h : ∀ part ∈ parts, c ∉ part) :
    c ∉ [mark].intercalate parts := by
  induction parts with
  | nil => exact List.not_mem_nil
  | cons first parts ih =>
    have hfirst := h first List.mem_cons_self
    cases parts with
    | nil => rwa [List.intercalate_singleton]
    | cons second parts =>
      have hrest := ih fun part hpart => h part (List.mem_cons_of_mem _ hpart)
      rw [List.intercalate_cons_cons]
      simp [hfirst, hmark, hrest]

lemma splitOn_subset {text : List Char} (h : part ∈ text.splitOn mark) : part ⊆ text := by
  have hpart : part ⊆ [mark].intercalate (text.splitOn mark) := subset_intercalate h
  rwa [List.intercalate_splitOn] at hpart

lemma mem_follow {stack : List (List Char)} (h : part ∈ follow stack parts) : part ∈ stack ∨ part ∈ parts := by
  induction stack, parts using follow.induct with
  | case1 stack => exact .inl (by simpa [follow] using h)
  | case2 stack rest ih =>
    rw [follow] at h
    exact (ih h).imp List.mem_of_mem_tail (List.mem_cons_of_mem _)
  | case3 stack rest ih =>
    rw [follow] at h
    exact (ih h).imp_right (List.mem_cons_of_mem _)
  | case4 stack segment rest hup hstay ih =>
    rw [follow] at h
    · rcases ih h with h | h
      · rcases List.mem_cons.1 h with rfl | h
        · exact .inr List.mem_cons_self
        · exact .inl h
      · exact .inr (List.mem_cons_of_mem _ h)
    all_goals assumption

lemma dropEmptyInner_subset : dropEmptyInner parts ⊆ parts := by
  cases parts with
  | nil => exact List.Subset.refl _
  | cons first rest =>
    rw [dropEmptyInner]
    split
    · next last hlast =>
      intro part hpart
      rcases List.mem_append.1 hpart with hpart | hpart
      · rcases List.mem_cons.1 hpart with rfl | hpart
        · exact List.mem_cons_self
        · exact List.mem_cons_of_mem _ ((List.dropLast_sublist rest).subset (List.mem_filter.1 hpart).1)
      · rw [List.mem_singleton.1 hpart]
        exact List.mem_cons_of_mem _ (List.mem_of_getLast? hlast)
    · exact List.cons_subset_cons _ (List.nil_subset _)

end Path

lemma hash_notMem_joinPath {base path : List Char} (hbase : '#' ∉ base) (hpath : '#' ∉ path) :
    '#' ∉ joinPath base path := by
  have hsplit {text : List Char} (htext : '#' ∉ text) : ∀ part ∈ text.splitOn '/', '#' ∉ part :=
    fun part hpart hhash => htext (splitOn_subset hpart hhash)
  unfold joinPath
  extract_lets pieces directory segments found endsOpen found'
  have hpieces : ∀ part ∈ pieces, '#' ∉ part := hsplit hbase
  have hdirectory : ∀ part ∈ directory, '#' ∉ part := by
    intro part hpart
    unfold directory at hpart
    split at hpart
    · exact hpieces part hpart
    · exact hpieces part ((List.dropLast_sublist pieces).subset hpart)
  have hsegments : ∀ part ∈ segments, '#' ∉ part := by
    intro part hpart
    unfold segments at hpart
    split at hpart
    · exact hsplit hpath part hpart
    · rcases List.mem_append.1 (dropEmptyInner_subset hpart) with hpart | hpart
      · exact hdirectory part hpart
      · exact hsplit hpath part hpart
  have hfound : ∀ part ∈ found, '#' ∉ part := by
    intro part hpart
    exact (mem_follow hpart).elim (fun h => absurd h List.not_mem_nil) (hsegments part)
  have hfound' : ∀ part ∈ found', '#' ∉ part := by
    intro part hpart
    unfold found' at hpart
    split at hpart
    · rcases List.mem_append.1 hpart with hpart | hpart
      · exact hfound part hpart
      · rw [List.mem_singleton.1 hpart]
        exact List.not_mem_nil
    · exact hfound part hpart
  split
  · decide
  · exact notMem_intercalate (by decide) hfound'

lemma hash_notMem_toList_of_fragment {p : Parts} (hfragment : p.fragment = []) (hscheme : '#' ∉ p.scheme)
    (hauthority : '#' ∉ p.authority) (hpath : '#' ∉ p.path) (hparams : '#' ∉ p.params) (hquery : '#' ∉ p.query) :
    '#' ∉ p.toList := by
  have hwithout := hash_notMem_toList hscheme hauthority hpath hparams hquery
  rwa [← hfragment] at hwithout

/-- A reference without a fragment is joined to a URI without one. -/
theorem hash_notMem_join {base reference uri : String} (hbase : '#' ∉ base.toList)
    (hreference : '#' ∉ reference.toList) (h : join base reference = .ok uri) : '#' ∉ uri.toList := by
  unfold join at h
  split at h
  · rwa [← Except.ok.inj h]
  split at h
  · rwa [← Except.ok.inj h]
  obtain ⟨b, hb, h⟩ := bind_eq_ok.1 h
  obtain ⟨r, hr, h⟩ := bind_eq_ok.1 h
  obtain ⟨hscheme, hauthority, hpath, hparams, hquery⟩ := hash_notMem_of_parts List.not_mem_nil hb
  obtain ⟨hscheme', hauthority', hpath', hparams', hquery'⟩ := hash_notMem_of_parts hscheme hr
  have hnothing : r.fragment = [] := fragment_of_parts hr hreference
  split at h
  · rwa [← Except.ok.inj h]
  dsimp only at h
  split at h
  · rw [← Except.ok.inj h, String.toList_ofList]
    exact hash_notMem_toList_of_fragment hnothing hscheme' hauthority' hpath' hparams' hquery'
  · rw [← Except.ok.inj h, String.toList_ofList]
    have hjoined := hash_notMem_joinPath hpath hpath'
    split <;> split
    · exact hash_notMem_toList_of_fragment hnothing hscheme' hauthority hpath hparams (by split <;> assumption)
    · exact hash_notMem_toList_of_fragment hnothing hscheme' hauthority hjoined hparams' hquery'
    · exact hash_notMem_toList_of_fragment hnothing hscheme' hauthority' hpath hparams (by split <;> assumption)
    · exact hash_notMem_toList_of_fragment hnothing hscheme' hauthority' hjoined hparams' hquery'

end SchemaAccessors.Uri
