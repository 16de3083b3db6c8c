import Mathlib.Data.List.Induction
import Mathlib.Tactic.Common
import SchemaAccessors.Proofs.Defragment
import SchemaAccessors.Proofs.Octets
import SchemaAccessors.Uri.Pointer

/-!
# Pointers read back

The URI of a subschema is written one key at a time, and a reference is read as the keys of its pointer. Every
key is read as it was written, whatever it holds: what looks like an escape is escaped itself, and no key
leaves the segment that stands for the empty one. So the URI of a subschema says where in its document it is.
-/

namespace SchemaAccessors.Uri

/-! ## One segment -/

lemma unescapeTilde_cons {c : Char} (h : c ≠ '~') (rest : List Char) :
    unescapeTilde (c :: rest) = c :: unescapeTilde rest := by
  rw [unescapeTilde]
  · exact fun tail hc _ => absurd hc h
  · exact fun tail hc _ => absurd hc h

lemma unescapeTilde_escapeTilde (key : List Char) : unescapeTilde (escapeTilde key) = key := by
  unfold escapeTilde
  induction key with
  | nil => rfl
  | cons c key ih =>
    rw [List.flatMap_cons]
    by_cases htilde : c = '~'
    · rw [if_pos htilde, htilde, List.cons_append, List.singleton_append, unescapeTilde, ih]
    · by_cases hslash : c = '/'
      · rw [if_neg htilde, if_pos hslash, hslash, List.cons_append, List.singleton_append, unescapeTilde, ih]
      · rw [if_neg htilde, if_neg hslash, List.singleton_append, unescapeTilde_cons htilde, ih]

/-- No key is written like the empty one. -/
lemma escapeTilde_ne_emptySegment (key : List Char) : escapeTilde key ≠ emptySegment := by
  intro h
  have hkey : key = unescapeTilde emptySegment := by rw [← h, unescapeTilde_escapeTilde]
  -- Only `~2` itself could be read as it, and that is written with its tilde escaped.
  rw [hkey] at h
  exact absurd h (by decide)

lemma percent_not_isSegmentSafe : isSegmentSafe '%' = false := by decide

lemma escape_escapeTilde_eq_nil {key : List Char} (h : escape isSegmentSafe (escapeTilde key) = []) :
    key = [] := by
  have hescaped : escapeTilde key = [] := by
    rw [← unescape_escape percent_not_isSegmentSafe (escapeTilde key), h]
    rfl
  rw [← unescapeTilde_escapeTilde key, hescaped]
  rfl

/-- A key is read as it was written. -/
theorem decodeSegment_encodeSegment (key : List Char) : decodeSegment (encodeSegment key) = key := by
  unfold encodeSegment
  split
  · next hnil =>
    rw [escape_escapeTilde_eq_nil hnil]
    decide
  · dsimp only [decodeSegment]
    rw [unescape_escape percent_not_isSegmentSafe, if_neg (escapeTilde_ne_emptySegment key),
      unescapeTilde_escapeTilde]

lemma mem_encodeSegment {c : Char} {key : List Char} (h : c ∈ encodeSegment key) :
    isSegmentSafe c ∨ c = '%' ∨ ∃ n < 16, c = Text.upperHexDigit n := by
  unfold encodeSegment at h
  split at h
  · have hmarker : emptySegment.all isSegmentSafe = true := by decide
    exact Or.inl (List.all_eq_true.1 hmarker c h)
  · exact (mem_escape h).imp_left And.right

/-- A character that is neither safe nor part of an escape stands in no segment. -/
lemma notMem_encodeSegment {c : Char} (hsafe : isSegmentSafe c = false) (hpercent : c ≠ '%')
    (hdigit : ∀ n < 16, c ≠ Text.upperHexDigit n) (key : List Char) : c ∉ encodeSegment key := by
  intro h
  rcases mem_encodeSegment h with h | h | ⟨n, hn, h⟩
  · rw [hsafe] at h
    exact Bool.false_ne_true h
  · exact hpercent h
  · exact hdigit n hn h

lemma slash_notMem_encodeSegment (key : List Char) : '/' ∉ encodeSegment key :=
  notMem_encodeSegment (by decide) (by decide) (by decide) key

lemma encodeSegment_ne_nil (key : List Char) : encodeSegment key ≠ [] := by
  intro h
  have hkey : key = decodeSegment [] := by rw [← h, decodeSegment_encodeSegment]
  have hnil : key = [] := hkey
  rw [hnil] at h
  exact absurd h (by decide)

/-! ## A pointer

Behind the `#`, a slash stands before every segment and nowhere else. -/

/-- The pointer that some keys are written as. -/
def fragmentOf (keys : List String) : List Char :=
  keys.flatMap fun key => '/' :: encodeSegment key.toList

lemma fragmentOf_concat (keys : List String) (key : String) :
    fragmentOf (keys ++ [key]) = fragmentOf keys ++ '/' :: encodeSegment key.toList := by
  simp [fragmentOf]

lemma getLast?_fragmentOf_ne_slash (keys : List String) : (fragmentOf keys).getLast? ≠ some '/' := by
  intro h
  induction keys using List.reverseRecOn with
  | nil => simp [fragmentOf] at h
  | append_singleton keys key ih =>
    obtain ⟨first, rest, hsegment⟩ := List.exists_cons_of_ne_nil (encodeSegment_ne_nil key.toList)
    rw [fragmentOf_concat, hsegment, List.getLast?_append, List.getLast?_cons_cons, ← hsegment] at h
    have hlast : (encodeSegment key.toList).getLast? = some '/' := by
      simpa [hsegment, List.getLast?_cons] using h
    exact slash_notMem_encodeSegment _ (List.mem_of_getLast? hlast)

/-- Slashes stand between the segments, if nothing is taken for a segment in front of the first. -/
lemma fragmentOf_eq_intercalate {keys : List String} :
    fragmentOf keys = ['/'].intercalate ([] :: keys.map fun key => encodeSegment key.toList) := by
  induction keys with
  | nil => rfl
  | cons key keys ih =>
    rw [List.map_cons, List.intercalate_cons_cons]
    cases keys with
    | nil => simp [fragmentOf]
    | cons next keys =>
      rw [List.map_cons, List.intercalate_cons_cons] at ih ⊢
      simp only [List.nil_append, List.singleton_append] at ih ⊢
      rw [fragmentOf, List.flatMap_cons, ← fragmentOf, ih]
      simp

/-- A pointer is read as the keys it was written for. -/
theorem pointer_fragmentOf (keys : List String) : pointer (String.ofList (fragmentOf keys)) = keys := by
  have hslash : ∀ segment ∈ [] :: keys.map (fun key => encodeSegment key.toList), '/' ∉ segment := by
    intro segment hsegment
    rcases List.mem_cons.1 hsegment with rfl | hsegment
    · exact List.not_mem_nil
    · obtain ⟨key, -, rfl⟩ := List.mem_map.1 hsegment
      exact slash_notMem_encodeSegment _
  have hsplit : (fragmentOf keys).splitOn '/' = [] :: keys.map fun key => encodeSegment key.toList := by
    rw [fragmentOf_eq_intercalate]
    exact List.splitOn_intercalate '/' hslash (List.cons_ne_nil _ _)
  rw [pointer, String.toList_ofList, hsplit, List.tail_cons, List.map_map]
  refine (List.map_congr_left fun key _ => ?_).trans (List.map_id keys)
  show String.ofList (decodeSegment (encodeSegment key.toList)) = key
  rw [decodeSegment_encodeSegment, String.ofList_toList]

/-! ## A URI with a pointer

The first key brings the `#`, and no key ends in a slash that the next could do without. -/

lemma toList_append_of_hash_notMem {uri : String} (huri : '#' ∉ uri.toList) (key : String) :
    (append uri key).toList = uri.toList ++ '#' :: fragmentOf [key] := by
  have hcontains : uri.toList.contains '#' = false := by simpa using huri
  dsimp only [append]
  rw [hcontains, if_neg Bool.false_ne_true, String.toList_ofList, List.getLast?_concat,
    if_neg (by decide)]
  simp [fragmentOf]

lemma toList_append_of_fragmentOf {uri : String} {before : List Char} {keys : List String}
    (h : uri.toList = before ++ '#' :: fragmentOf keys) (key : String) :
    (append uri key).toList = before ++ '#' :: fragmentOf (keys ++ [key]) := by
  have hcontains : uri.toList.contains '#' = true := by simp [h]
  have hlast : uri.toList.getLast? ≠ some '/' := by
    rw [h, List.getLast?_append, List.getLast?_cons, Option.some_or, ne_eq, Option.some.injEq]
    intro hlast
    cases hfragment : (fragmentOf keys).getLast? with
    | none =>
      rw [hfragment] at hlast
      exact absurd hlast (by decide)
    | some c =>
      rw [hfragment] at hlast
      exact getLast?_fragmentOf_ne_slash keys (hfragment.trans (congrArg some hlast))
  dsimp only [append]
  rw [hcontains, if_pos rfl, if_neg hlast, String.toList_ofList, fragmentOf_concat, h]
  simp

lemma toList_foldl_append {uri : String} {keys : List String} (huri : '#' ∉ uri.toList) (hkeys : keys ≠ []) :
    (keys.foldl append uri).toList = uri.toList ++ '#' :: fragmentOf keys := by
  induction keys using List.reverseRecOn with
  | nil => exact absurd rfl hkeys
  | append_singleton keys key ih =>
    rw [List.foldl_append, List.foldl_cons, List.foldl_nil]
    by_cases hnil : keys = []
    · rw [hnil]
      exact toList_append_of_hash_notMem huri key
    · exact toList_append_of_fragmentOf (ih hnil) key

lemma cut_foldl_append {uri : String} {keys : List String} (huri : '#' ∉ uri.toList) (hkeys : keys ≠ []) :
    cut '#' (keys.foldl append uri).toList = (uri.toList, some (fragmentOf keys)) := by
  rw [toList_foldl_append huri hkeys]
  exact cut_append_cons huri _

lemma fragmentOf_injective : Function.Injective fragmentOf := by
  intro keys keys' h
  rw [← pointer_fragmentOf keys, h, pointer_fragmentOf]

/-- URIs with pointers are different if the pointers are, or what they were put behind. -/
lemma foldl_append_inj {uri uri' : String} {keys keys' : List String} (huri : '#' ∉ uri.toList)
    (huri' : '#' ∉ uri'.toList) (h : keys.foldl append uri = keys'.foldl append uri') :
    uri = uri' ∧ keys = keys' := by
  by_cases hkeys : keys = []
  · by_cases hkeys' : keys' = []
    · rw [hkeys, hkeys'] at h
      exact ⟨h, hkeys.trans hkeys'.symm⟩
    · have hhash : '#' ∈ (keys'.foldl append uri').toList := by
        rw [toList_foldl_append huri' hkeys']
        exact List.mem_append_right _ List.mem_cons_self
      rw [← h, hkeys] at hhash
      exact absurd hhash huri
  · by_cases hkeys' : keys' = []
    · have hhash : '#' ∈ (keys.foldl append uri).toList := by
        rw [toList_foldl_append huri hkeys]
        exact List.mem_append_right _ List.mem_cons_self
      rw [h, hkeys'] at hhash
      exact absurd hhash huri'
    · have hcut := cut_foldl_append huri hkeys
      rw [h, cut_foldl_append huri' hkeys', Prod.mk.injEq, Option.some.injEq] at hcut
      exact ⟨(String.toList_inj.1 hcut.1).symm, (fragmentOf_injective hcut.2).symm⟩

/-- What stands behind the first `#` is read as the keys that were appended, and what stands before it is the
URI they were appended to. Other keys make another URI. -/
theorem pointer_foldl_append {uri : String} {keys : List String} (huri : '#' ∉ uri.toList) (hkeys : keys ≠ []) :
    (∃ fragment, cut '#' (keys.foldl append uri).toList = (uri.toList, some fragment)
        ∧ pointer (String.ofList fragment) = keys)
      ∧ ∀ keys', keys' ≠ keys → keys'.foldl append uri ≠ keys.foldl append uri := by
  refine ⟨⟨fragmentOf keys, cut_foldl_append huri hkeys, pointer_fragmentOf keys⟩, ?_⟩
  intro keys' hne heq
  exact hne (foldl_append_inj huri huri heq).2

/-- Keys that look like escapes, and the empty key. -/
theorem pointer_foldl_append_of_escapes :
    '#' ∉ "http://a/b".toList ∧ ["", "~2", "~1/", "%7E#."] ≠ []
      ∧ (∃ fragment, cut '#' (["", "~2", "~1/", "%7E#."].foldl append "http://a/b").toList
            = ("http://a/b".toList, some fragment)
          ∧ pointer (String.ofList fragment) = ["", "~2", "~1/", "%7E#."])
      ∧ ["~2", "", "~1/", "%7E#."].foldl append "http://a/b"
        ≠ ["", "~2", "~1/", "%7E#."].foldl append "http://a/b" :=
  have huri : '#' ∉ "http://a/b".toList := by decide
  have hkeys : ["", "~2", "~1/", "%7E#."] ≠ [] := by decide
  have hwhole := pointer_foldl_append huri hkeys
  ⟨huri, hkeys, hwhole.1, hwhole.2 ["~2", "", "~1/", "%7E#."] (by decide)⟩

end SchemaAccessors.Uri
