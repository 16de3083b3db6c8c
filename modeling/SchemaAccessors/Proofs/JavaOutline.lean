import SchemaAccessors.Proofs.JavaCode
import SchemaAccessors.Proofs.Outlines

/-!
# Outlines of Java code

Read by its indentation, a file is the tree of types that it was made from. The braces are not looked at but for the
one that ends a header. What documentation says does not matter, although it may look like code, since the end of a
comment is broken up in it. Names of packages are copied as they are, so they have to be on one line, and without the
parenthesis that ends the name of a method.
-/

namespace SchemaAccessors

/-! ## Characters of values -/

namespace Json

mutual

lemma ne_feed_compact : (value : Json) → ∀ c ∈ value.compact.toList, c ≠ '\n'
  | null => by decide
  | bool b => by cases b <;> decide
  | int n => fun c hc => (isInLine_of_isNumeral (isNumeral_int n c hc)).1
  | float x => fun c hc => (isInLine_of_isNumeral (x.isNumeral_json c hc)).1
  | str s => fun c hc => (isInLine_encodeString s c hc).1
  | arr xs => by
    have hseparator : ∀ c ∈ ", ".toList, c ≠ '\n' := by decide
    have hparts := forall_mem_intercalate hseparator (ne_feed_compactElements xs)
    simp only [compact, String.toList_append, List.forall_mem_append]
    exact ⟨⟨by decide, hparts⟩, by decide⟩
  | obj ms => by
    have hseparator : ∀ c ∈ ", ".toList, c ≠ '\n' := by decide
    have hparts := forall_mem_intercalate hseparator (ne_feed_compactMembers ms)
    simp only [compact, String.toList_append, List.forall_mem_append]
    exact ⟨⟨by decide, hparts⟩, by decide⟩

lemma ne_feed_compactElements : (xs : List Json) → ∀ part ∈ compactElements xs, ∀ c ∈ part.toList, c ≠ '\n'
  | [] => fun _ hpart => (List.not_mem_nil hpart).elim
  | x :: xs => List.forall_mem_cons.2 ⟨ne_feed_compact x, ne_feed_compactElements xs⟩

lemma ne_feed_compactMembers : (ms : Members) → ∀ part ∈ compactMembers ms, ∀ c ∈ part.toList, c ≠ '\n'
  | [] => fun _ hpart => (List.not_mem_nil hpart).elim
  | (key, x) :: ms => by
    refine List.forall_mem_cons.2 ⟨?_, ne_feed_compactMembers ms⟩
    simp only [String.toList_append, List.forall_mem_append]
    exact ⟨⟨fun c hc => (isInLine_encodeString key c hc).1, by decide⟩, ne_feed_compact x⟩

end

end Json

namespace Render.Java

/-! ## Characters of code -/

lemma ne_feed_of_alphanum {name : String} (h : ∀ c ∈ name.toList, c.isAlphanum = true) : ∀ c ∈ name.toList, c ≠ '\n' :=
  fun c hc => (isInLine_of_isAlphanum (h c hc)).1

lemma ne_feed_int (n : Int) : ∀ c ∈ (toString n).toList, c ≠ '\n' := fun c hc =>
  (isInLine_of_isNumeral (isNumeral_int n c hc)).1

lemma ne_feed_double (x : Binary64) : ∀ c ∈ (double x).toList, c ≠ '\n' :=
  forall_mem_double (fun _ hc => (isInLine_of_isNumeral hc).1) (by decide) x

lemma Form.ne_feed {kind : RawKind} {value : Json} {text : String} (h : Form kind value text) :
    ∀ c ∈ text.toList, c ≠ '\n' := by
  have hconverted (x : Binary64) : ∀ c ∈ ("(int) " ++ Java.double x).toList, c ≠ '\n' := by
    rw [String.toList_append, List.forall_mem_append]
    exact ⟨by decide, ne_feed_double x⟩
  cases h with
  | bool b => cases b <;> decide
  | int fits => exact ne_feed_int _
  | long other wide fits =>
    rw [String.toList_append, List.forall_mem_append]
    exact ⟨ne_feed_int _, by decide⟩
  | nearest other wide wider hx => exact ne_feed_double _
  | convertedNearest same wide hx => exact hconverted _
  | double other => exact ne_feed_double _
  | whole same value fits => exact ne_feed_int _
  | converted same => exact hconverted _
  | str s => exact Json.ne_feed_compact _
  | null => exact Json.ne_feed_compact _
  | arr xs => exact Json.ne_feed_compact _
  | obj ms => exact Json.ne_feed_compact _

lemma ne_feed_castField {f : Field} (h : ∀ c ∈ f.name.toList, c ≠ '\n') (kind : RawKind) :
    ∀ c ∈ (castField f kind).toList, c ≠ '\n' := by
  have hraw : ∀ c ∈ (rawType kind).toList, c ≠ '\n' := by cases kind <;> decide
  unfold castField
  split
  · exact h
  · simp only [toString, String.toList_append, List.forall_mem_append, and_assoc]
    exact ⟨by decide, hraw, by decide, h, by decide⟩

lemma ne_feed_lookup {target key : String} {kind : RawKind} {default? : Option Json} {text : String}
    (h : lookup target key kind default? = .ok text) (htarget : ∀ c ∈ target.toList, c ≠ '\n')
    (hkey : ∀ c ∈ key.toList, c ≠ '\n') : ∀ c ∈ text.toList, c ≠ '\n' := by
  have hname : ∀ c ∈ ((lookupKind kind).getD "").toList, c ≠ '\n' := by cases kind <;> decide
  unfold lookup at h
  split at h
  · rw [← Except.ok.inj h]
    simp only [toString, String.toList_append, List.forall_mem_append, and_assoc]
    exact ⟨htarget, by decide, hname, by decide, hkey, by decide⟩
  · obtain ⟨default, hliteral, hrest⟩ := bind_eq_ok.1 h
    have hdefault := (form_of_literalFor hliteral).ne_feed
    split at hrest
    · rw [← Except.ok.inj hrest]
      simp only [toString, String.toList_append, List.forall_mem_append, and_assoc]
      exact ⟨htarget, by decide, hkey, by decide, htarget, by decide, hkey, by decide, hdefault⟩
    · next name hk =>
      rw [hk] at hname
      rw [← Except.ok.inj hrest]
      simp only [toString, String.toList_append, List.forall_mem_append, and_assoc]
      exact ⟨htarget, by decide, hname, by decide, hkey, by decide, hdefault, by decide⟩

section Names

variable {m : Model} (hnames : ∀ id, ∀ c ∈ (typeName m id).toList, c ≠ '\n' ∧ c ≠ '(')

include hnames

lemma ne_of_mem_typeText (r : TypeRef) : ∀ c ∈ (typeText m r).toList, c ≠ '\n' ∧ c ≠ '(' := by
  unfold typeText
  split
  · exact hnames _
  · cases r.raw <;> decide

lemma ne_feed_expr {e : Expr} {text : String} (h : expr m e = .ok text)
    (hplain : ∀ name ∈ e.names, ∀ c ∈ name.toList, c.isAlphanum = true) : ∀ c ∈ text.toList, c ≠ '\n' := by
  induction e generalizing text with
  | field f =>
    rw [← Except.ok.inj h]
    exact ne_feed_of_alphanum (hplain _ List.mem_cons_self)
  | literal value => exact (form_of_literal h).ne_feed
  | property f key kind default? =>
    have hfield := ne_feed_of_alphanum (hplain _ List.mem_cons_self)
    exact ne_feed_lookup h (ne_feed_castField hfield _) fun c hc => (Json.isInLine_encodeString key c hc).1
  | item f index kind default? =>
    have hfield := ne_feed_of_alphanum (hplain _ List.mem_cons_self)
    have hindex := ne_feed_of_alphanum (hplain _ (List.mem_cons_of_mem _ List.mem_cons_self))
    exact ne_feed_lookup h (ne_feed_castField hfield _) hindex
  | presence f key =>
    have hfield := ne_feed_castField (ne_feed_of_alphanum (hplain _ List.mem_cons_self)) .object
    rw [← Except.ok.inj h]
    simp only [toString, String.toList_append, List.forall_mem_append, and_assoc]
    exact ⟨hfield, by decide, fun c hc => (Json.isInLine_encodeString key c hc).1, by decide⟩
  | length f =>
    have hfield := ne_feed_castField (ne_feed_of_alphanum (hplain _ List.mem_cons_self)) .array
    rw [← Except.ok.inj h]
    simp only [toString, String.toList_append, List.forall_mem_append]
    exact ⟨hfield, by decide⟩
  | construct id argument ih =>
    obtain ⟨inner, hinner, hlast⟩ := bind_eq_ok.1 h
    rw [← Except.ok.inj hlast]
    simp only [toString, String.toList_append, List.forall_mem_append, and_assoc]
    exact ⟨by decide, fun c hc => (hnames id c hc).1, by decide, ih hinner hplain, by decide⟩
  | foreign value => cases h

lemma ne_feed_parameters {ps : List Parameter}
    (h : ∀ name ∈ ps.map (·.name), ∀ c ∈ name.toList, c.isAlphanum = true) :
    ∀ c ∈ (parameters m ps).toList, c ≠ '\n' := by
  refine forall_mem_intercalate (by decide) fun text htext => ?_
  obtain ⟨p, hp, rfl⟩ := List.mem_map.1 htext
  simp only [toString, String.toList_append, List.forall_mem_append, and_assoc]
  exact ⟨fun c hc => (ne_of_mem_typeText hnames _ c hc).1, by decide,
    ne_feed_of_alphanum (h p.name (List.mem_map_of_mem hp))⟩

end Names

/-! ## How Java is read -/

/-- What a header names, by its words from the last to the first, without its visibility. The name of a class stands
between the word for one and a brace, and that of a method behind a type. Constructors have no type. -/
def named? : List (List Char) → Option Header
  | last :: name :: more =>
    if last = ['\x7b'] then
      if more.head? = some "class".toList then some (.type (String.ofList name)) else none
    else some (.method (String.ofList last))
  | _ => none

/-- Words without a visibility in front. -/
def dropVisibility : List (List Char) → List (List Char)
  | word :: words => if word ∈ ["public".toList, "private".toList, "protected".toList] then words else word :: words
  | [] => []

/-- The class or method that a line is the header of, if it is no comment and ends with a brace that opens. Parameters
do not count. -/
def header? (text : List Char) : Option Header :=
  if ¬ "//".toList <+: text ∧ text.getLast? = some '\x7b' then
    named? (dropVisibility ((text.takeWhile (· ≠ '(')).splitOn ' ')).reverse
  else none

lemma header?_of_getLast? {text : List Char} (h : text.getLast? ≠ some '\x7b') : header? text = none :=
  if_neg fun hheader => h hheader.2

section Words

variable {v : Visibility} {head rest : List Char}

lemma notMem_word (v : Visibility) : '(' ∉ v.word.toList ∧ ' ' ∉ v.word.toList := by
  cases v <;> decide

/-- A line that begins with a visibility and ends with a brace. -/
lemma header?_of_visibility (hlast : rest.getLast? = some '\x7b') :
    header? (v.word.toList ++ ' ' :: rest) = named? ((rest.takeWhile (· ≠ '(')).splitOn ' ').reverse := by
  have hcode : ¬ "//".toList <+: v.word.toList ++ ' ' :: rest := fun h => by
    cases v <;> exact absurd (List.cons_prefix_cons.1 h).1 (by decide)
  have hend : (v.word.toList ++ ' ' :: rest).getLast? = some '\x7b' := by
    rw [List.getLast?_append, List.getLast?_cons, hlast]
    rfl
  have hword : ∀ c ∈ v.word.toList, decide (c ≠ '(') = true := fun c hc => by
    have hne : c ≠ '(' := fun heq => (notMem_word v).1 (heq ▸ hc)
    exact decide_eq_true hne
  have hvisibility : v.word.toList ∈ ["public".toList, "private".toList, "protected".toList] := by
    cases v <;> decide
  rw [header?, if_pos ⟨hcode, hend⟩, List.takeWhile_append_of_pos hword, List.takeWhile_cons_of_pos (by decide),
    List.splitOn_append_cons_self_of_not_mem (notMem_word v).2, dropVisibility, if_pos hvisibility]

/-- What stands before the parameters. -/
lemma takeWhile_append_parenthesis (h : '(' ∉ head) : (head ++ '(' :: rest).takeWhile (· ≠ '(') = head := by
  have hhead : ∀ c ∈ head, decide (c ≠ '(') = true := fun c hc => by
    have hne : c ≠ '(' := fun heq => h (heq ▸ hc)
    exact decide_eq_true hne
  rw [List.takeWhile_append_of_pos hhead, List.takeWhile_cons_of_neg (by decide), List.append_nil]

end Words

section Named

variable {name : String} (hname : ∀ c ∈ name.toList, c.isAlphanum = true)

include hname

lemma notMem_name {c : Char} (hc : c.isAlphanum = false) : c ∉ name.toList := fun hmem => by
  rw [hname c hmem] at hc
  cases hc

/-- The name of a method is behind its type, whatever that is. -/
lemma header?_method (v : Visibility) {type rest : List Char} (htype : '(' ∉ type)
    (hlast : rest.getLast? = some '\x7b') :
    header? (v.word.toList ++ ' ' :: (type ++ ' ' :: (name.toList ++ '(' :: rest))) = some (.method name) := by
  have hopening : '(' ∉ type ++ ' ' :: name.toList := by
    rw [List.mem_append, List.mem_cons, not_or, not_or]
    exact ⟨htype, by decide, notMem_name hname (by decide)⟩
  have hbrace : name.toList ≠ ['\x7b'] := fun heq => notMem_name hname (c := '\x7b') (by decide) (by rw [heq]; decide)
  have hsplit : type ++ ' ' :: (name.toList ++ '(' :: rest) = (type ++ ' ' :: name.toList) ++ '(' :: rest := by simp
  have hend : (type ++ ' ' :: (name.toList ++ '(' :: rest)).getLast? = some '\x7b' := by
    rw [hsplit, List.getLast?_append, List.getLast?_cons, hlast]
    rfl
  obtain ⟨words, last, hwords⟩ := List.eq_nil_or_concat (type.splitOn ' ') |>.resolve_left (List.splitOn_ne_nil _ _)
  rw [header?_of_visibility hend, hsplit, takeWhile_append_parenthesis hopening, List.splitOn_append_cons_self,
    List.splitOn_eq_singleton (notMem_name hname (by decide)), hwords]
  rw [List.concat_eq_append, List.reverse_append, List.reverse_append, List.reverse_singleton, List.reverse_singleton,
    List.singleton_append, List.singleton_append, named?, if_neg hbrace, String.ofList_toList]

/-- A constructor has no type. -/
lemma header?_constructor (v : Visibility) {rest : List Char} (hlast : rest.getLast? = some '\x7b') :
    header? (v.word.toList ++ ' ' :: (name.toList ++ '(' :: rest)) = none := by
  have hend : (name.toList ++ '(' :: rest).getLast? = some '\x7b' := by
    rw [List.getLast?_append, List.getLast?_cons, hlast]
    rfl
  rw [header?_of_visibility hend, takeWhile_append_parenthesis (notMem_name hname (by decide)),
    List.splitOn_eq_singleton (notMem_name hname (by decide))]
  rfl

/-- The name of a class is behind the word for one. -/
lemma header?_class {modifiers : String} (hmodifiers : modifiers = "public" ∨ modifiers = "public static") :
    header? s!"{modifiers} class {name} \x7b".toList = some (.type name) := by
  have hline : s!"{modifiers} class {name} \x7b".toList =
      modifiers.toList ++ ' ' :: ("class".toList ++ ' ' :: (name.toList ++ [' ', '\x7b'])) := by
    simp [toString]
  have hend : ("class".toList ++ ' ' :: (name.toList ++ [' ', '\x7b'])).getLast? = some '\x7b' := by
    rw [List.getLast?_append, List.getLast?_cons, List.getLast?_append]
    rfl
  have hopening : ∀ c ∈ "class".toList ++ ' ' :: (name.toList ++ [' ', '\x7b']), decide (c ≠ '(') = true := by
    simp only [List.forall_mem_append, List.forall_mem_cons]
    exact ⟨by decide, by decide, fun c hc => decide_eq_true fun heq => notMem_name hname (by decide) (heq ▸ hc),
      by decide⟩
  have hwords : ("class".toList ++ ' ' :: (name.toList ++ [' ', '\x7b'])).splitOn ' ' =
      ["class".toList, name.toList, ['\x7b']] := by
    rw [List.splitOn_append_cons_self_of_not_mem (by decide),
      List.splitOn_append_cons_self_of_not_mem (notMem_name hname (by decide)), List.splitOn_eq_singleton (by decide)]
  rw [hline]
  generalize "class".toList ++ ' ' :: (name.toList ++ [' ', '\x7b']) = text at hend hopening hwords
  have hnamed : named? ["class".toList, name.toList, ['\x7b']].reverse = some (.type name) :=
    congrArg (fun name => some (Header.type name)) String.ofList_toList
  rcases hmodifiers with rfl | rfl
  · have hpublic : "public".toList = Visibility.visible.word.toList := rfl
    rw [hpublic, header?_of_visibility hend, List.takeWhile_eq_self_iff.2 hopening, hwords, hnamed]
  · have hstatic : "public static".toList ++ ' ' :: text =
        Visibility.visible.word.toList ++ ' ' :: ("static".toList ++ ' ' :: text) := rfl
    have hlast : ("static".toList ++ ' ' :: text).getLast? = some '\x7b' := by
      rw [List.getLast?_append, List.getLast?_cons, hend]
      rfl
    have hbefore : ∀ c ∈ "static".toList ++ ' ' :: text, decide (c ≠ '(') = true :=
      List.forall_mem_append.2 ⟨by decide, List.forall_mem_cons.2 ⟨by decide, hopening⟩⟩
    rw [hstatic, header?_of_visibility hlast, List.takeWhile_eq_self_iff.2 hbefore,
      List.splitOn_append_cons_self_of_not_mem (by decide), hwords]
    exact hnamed

end Named

/-- Comments in front of a class begin with two strokes and an asterisk. -/
def reading : Reading where
  opens text := Text.strip text = "/**".toList
  closes text := Output.holds "*/".toList text
  header? := header?
  blank text h := by
    have hblank := List.all_eq_true.1 h
    refine ⟨decide_eq_false ?_, ?_, ?_⟩
    · rw [Text.strip_of_blank hblank]
      decide
    · by_contra hcloses
      have hmem := ((holds_iff.1 (by simpa using hcloses)).subset (List.mem_cons_self))
      exact absurd (hblank _ hmem) (by decide)
    · exact header?_of_getLast? fun hbrace => absurd (hblank _ (List.mem_of_getLast? hbrace)) (by decide)

/-- A line that begins with a character other than a blank or a stroke opens no comment. -/
lemma opens_eq_false {c : Char} {text : List Char} (hfirst : text.head? = some c) (hshown : Text.isBlank c = false)
    (hstroke : c ≠ '/') : reading.opens text = false := by
  refine decide_eq_false fun hmarks => hstroke ?_
  have hstrip := Text.head?_strip hfirst hshown
  rw [hmarks] at hstrip
  exact (Option.some.inj hstrip).symm

/-- A line that begins with a character other than these heads what it says. -/
lemma reads_line {line : String} {c : Char} {header : Option Header} (hends : ∀ c ∈ line.toList, c ≠ '\n')
    (hfirst : line.toList.head? = some c) (hshown : Text.isBlank c = false) (hstroke : c ≠ '/')
    (hheader : header? line.toList = header) : reading.Reads [line] (header.map (Heading.mk 0)).toList := by
  rw [← hheader]
  exact .shown (fun hfeed => hends _ hfeed rfl) hfirst hshown (opens_eq_false hfirst hshown hstroke)

/-- Statements end with a semicolon, and head nothing. -/
lemma reads_statement {text : String} {c : Char} (hends : ∀ c ∈ text.toList, c ≠ '\n')
    (hfirst : text.toList.head? = some c) (hshown : Text.isBlank c = false) (hstroke : c ≠ '/') :
    reading.Reads [text ++ ";"] [] := by
  have hline : (text ++ ";").toList = text.toList ++ [';'] := String.toList_append
  have hnone : header? (text ++ ";").toList = none := by
    refine header?_of_getLast? fun hbrace => ?_
    rw [hline, List.getLast?_append] at hbrace
    exact absurd (Option.some.inj hbrace) (by decide)
  refine reads_line ?_ ?_ hshown hstroke hnone
  · rw [hline, List.forall_mem_append]
    exact ⟨hends, by decide⟩
  · rw [hline, List.head?_append, hfirst]
    rfl

/-- A brace that closes. -/
lemma reads_closing : reading.Reads ["\x7d"] [] := by
  have hnone : header? "\x7d".toList = none := header?_of_getLast? (by decide)
  exact reads_line (c := '\x7d') (by decide) rfl (by decide) (by decide) hnone

/-! ## Comments -/

lemma escapeDoc_eq_cons {text out : List Char} (h : escapeDoc text = '/' :: out) : ∃ rest, text = '/' :: rest := by
  revert h
  fun_cases escapeDoc text with
  | case5 c rest =>
    intro h
    exact ⟨rest, congrArg (· :: rest) (List.cons.inj h).1⟩
  | _ => simp

lemma not_infix_append {word rest : List Char} (hword : ∀ c ∈ word, c ≠ '*') (hrest : ¬ "*/".toList <:+: rest) :
    ¬ "*/".toList <:+: word ++ rest := by
  induction word with
  | nil => exact hrest
  | cons c word ih =>
    obtain ⟨hc, hword⟩ := List.forall_mem_cons.1 hword
    rw [List.cons_append, List.infix_cons_iff]
    exact not_or.2 ⟨fun h => hc (List.cons_prefix_cons.1 h).1.symm, ih hword⟩

/-- An asterisk without a stroke behind it ends no comment. -/
lemma not_infix_cons {c : Char} {rest : List Char} (hc : c ≠ '/') (hrest : ¬ "*/".toList <:+: c :: rest) :
    ¬ "*/".toList <:+: '*' :: c :: rest := by
  rw [List.infix_cons_iff]
  exact not_or.2 ⟨fun h => hc (List.cons_prefix_cons.1 (List.cons_prefix_cons.1 h).2).1.symm, hrest⟩

/-- The end of a comment does not occur in escaped documentation. -/
lemma not_infix_escapeDoc (text : List Char) : ¬ "*/".toList <:+: escapeDoc text := by
  fun_induction escapeDoc text with
  | case1 rest ih => exact not_infix_append (by decide) ih
  | case2 rest ih => exact not_infix_append (by decide) ih
  | case3 rest ih => exact not_infix_append (by decide) ih
  | case4 rest ih =>
    have hescape : ∀ c ∈ "&#47;".toList, c ≠ '*' := by decide
    exact not_infix_cons (by decide) (not_infix_append hescape ih)
  | case5 c rest _ _ _ hstar ih =>
    rw [List.infix_cons_iff]
    refine not_or.2 ⟨fun h => ?_, ih⟩
    obtain ⟨hc, htail⟩ := List.cons_prefix_cons.1 h
    obtain ⟨out, hout⟩ := htail
    obtain ⟨rest', hrest⟩ := escapeDoc_eq_cons hout.symm
    exact hstar rest' hc.symm hrest
  | case6 => decide

/-- A line of documentation is escaped behind a mark, up to the blanks at its end. -/
lemma prefix_docLine (line : String) : (docLine line).toList <+: [' ', '*', ' '] ++ escapeDoc line.toList := by
  have hmark : (" * " ++ String.ofList (escapeDoc line.toList)).toList = [' ', '*', ' '] ++ escapeDoc line.toList := by
    rw [String.toList_append, String.toList_ofList, String.toList_ofList]
  rw [docLine, Text.trimRight, hmark, String.toList_ofList, ← List.reverse_suffix, List.reverse_reverse]
  exact List.dropWhile_suffix _

/-- No line of documentation ends its comment. -/
lemma not_infix_docLine (line : String) : ¬ "*/".toList <:+: (docLine line).toList := by
  have hbehind : ¬ "*/".toList <:+: [' '] ++ escapeDoc line.toList :=
    not_infix_append (by decide) (not_infix_escapeDoc _)
  have hstar : ¬ "*/".toList <:+: '*' :: ' ' :: escapeDoc line.toList := not_infix_cons (by decide) hbehind
  have hline : ¬ "*/".toList <:+: [' '] ++ ('*' :: ' ' :: escapeDoc line.toList) := not_infix_append (by decide) hstar
  exact fun hends => hline (hends.trans (prefix_docLine line).isInfix)

lemma closes_docLine (line : String) : reading.closes (code (docLine line)) = false := by
  have hpart : code (docLine line) <:+: (docLine line).toList := (List.dropWhile_suffix _).isInfix
  by_contra hcloses
  have hholds : Output.holds "*/".toList (code (docLine line)) = true := by simpa [reading] using hcloses
  exact not_infix_docLine line ((holds_iff.1 hholds).trans hpart)

lemma feed_notMem_docLine {line : String} (h : '\n' ∉ line.toList) : '\n' ∉ (docLine line).toList := by
  have hescaped (text : List Char) (htext : '\n' ∉ text) : '\n' ∉ escapeDoc text := by
    fun_induction escapeDoc text <;> simp_all
  intro hfeed
  rcases List.mem_append.1 ((prefix_docLine line).subset hfeed) with hmark | hfeed
  · exact absurd hmark (by decide)
  · exact hescaped _ h hfeed

/-- A comment is passed over as a whole. -/
lemma reads_docComment (doc : String) : reading.Reads (docComment doc) [] := by
  have hlines (text : List Char) : ∀ line ∈ (Text.lines (String.ofList text)).map docLine,
      '\n' ∉ line.toList ∧ reading.closes (code line) = false := by
    intro line hline
    obtain ⟨l, hl, rfl⟩ := List.mem_map.1 hline
    exact ⟨feed_notMem_docLine (Text.feed_notMem_of_mem_lines hl), closes_docLine l⟩
  have hcomment {lines : List String} (h : ∀ line ∈ lines, '\n' ∉ line.toList ∧ reading.closes (code line) = false) :
      reading.Reads (["/**"] ++ lines ++ [" */"]) [] := by
    refine .doc ?_ (by decide) (fun line hline => (h line hline).2) (by decide)
    simp only [List.forall_mem_append, List.forall_mem_singleton]
    exact ⟨⟨by decide, fun line hline => (h line hline).1⟩, by decide⟩
  unfold docComment
  dsimp only
  split
  · rw [List.append_nil]
    exact hcomment (hlines _)
  · rw [List.append_assoc ["/**"]]
    refine hcomment (List.forall_mem_append.2 ⟨hlines _, ?_⟩)
    simp only [List.forall_mem_append, List.forall_mem_singleton]
    exact ⟨⟨⟨by decide, by decide⟩, hlines _⟩, by decide, by decide⟩

/-! ## Members -/

lemma head?_word (v : Visibility) : v.word.toList.head? = some 'p' := by
  cases v <;> rfl

section Members

variable {m : Model} (hnames : ∀ id, ∀ c ∈ (typeName m id).toList, c ≠ '\n' ∧ c ≠ '(')

include hnames

lemma reads_fieldLine {f : Field} (h : ∀ c ∈ f.name.toList, c.isAlphanum = true) :
    reading.Reads [fieldLine m f] [] := by
  have hword : ∀ c ∈ f.visibility.word.toList, c ≠ '\n' := by cases f.visibility <;> decide
  have hfinal : ∀ c ∈ (if f.isFinal then " final" else "").toList, c ≠ '\n' := by cases f.isFinal <;> decide
  refine reads_statement (c := 'p') ?_ (by simp [toString, head?_word]) (by decide) (by decide)
  simp only [toString, String.toList_append, List.forall_mem_append, and_assoc]
  exact ⟨hword, hfinal, by decide, fun c hc => (ne_of_mem_typeText hnames _ c hc).1, by decide, ne_feed_of_alphanum h⟩

lemma reads_constructorLines {name : String} {c : Constructor} (hname : ∀ c ∈ name.toList, c.isAlphanum = true)
    (h : ∀ name ∈ c.names, ∀ c ∈ name.toList, c.isAlphanum = true) :
    reading.Reads (constructorLines m name c) [] := by
  obtain ⟨hparameters, hassigned⟩ := List.forall_mem_append.1 h
  have hhead : reading.Reads [s!"{c.visibility.word} {name}({parameters m c.parameters}) \x7b"] [] := by
    have hword : ∀ d ∈ c.visibility.word.toList, d ≠ '\n' := by cases c.visibility <;> decide
    have hends : ∀ d ∈ s!"{c.visibility.word} {name}({parameters m c.parameters}) \x7b".toList, d ≠ '\n' := by
      simp only [toString, String.toList_append, List.forall_mem_append, and_assoc]
      exact ⟨hword, by decide, ne_feed_of_alphanum hname, by decide, ne_feed_parameters hnames hparameters, by decide⟩
    have hheader : header? s!"{c.visibility.word} {name}({parameters m c.parameters}) \x7b".toList = none := by
      have hend : ((parameters m c.parameters).toList ++ ") \x7b".toList).getLast? = some '\x7b' := by
        rw [List.getLast?_append]
        rfl
      have hnone := header?_constructor hname c.visibility hend
      simpa [toString] using hnone
    exact reads_line (c := 'p') hends (by simp [toString, head?_word]) (by decide) (by decide) hheader
  unfold constructorLines
  refine (hhead.append (.indent (.statements fun line hline => ?_))).append reads_closing
  obtain ⟨⟨field, parameter⟩, hmem, rfl⟩ := List.mem_map.1 hline
  have hboth : ∀ name ∈ [field, parameter], ∀ c ∈ name.toList, c ≠ '\n' := fun name hin =>
    ne_feed_of_alphanum (hassigned name (List.mem_flatMap.2 ⟨_, hmem, hin⟩))
  refine reads_statement (c := 't') ?_ (by simp [toString]) (by decide) (by decide)
  simp only [toString, String.toList_append, List.forall_mem_append, and_assoc]
  exact ⟨by decide, hboth field List.mem_cons_self, by decide,
    hboth parameter (List.mem_cons_of_mem _ List.mem_cons_self)⟩

/-- A method is headed by its name. -/
lemma reads_methodLines {method : Method} {lines : List String} (h : methodLines m method = .ok lines)
    (hplain : ∀ name ∈ method.names, ∀ c ∈ name.toList, c.isAlphanum = true) :
    reading.Reads lines [⟨0, .method method.name⟩] := by
  unfold Method.names at hplain
  obtain ⟨hname, hrest⟩ := List.forall_mem_cons.1 hplain
  obtain ⟨hparameters, hbody⟩ := List.forall_mem_append.1 hrest
  have hword : ∀ c ∈ method.visibility.word.toList, c ≠ '\n' := by cases method.visibility <;> decide
  have htype := ne_of_mem_typeText hnames method.returns
  unfold methodLines at h
  split at h
  · next body hsome =>
    rw [hsome] at hbody
    obtain ⟨value, hexpr, hlast⟩ := bind_eq_ok.1 h
    have hhead : reading.Reads [s!"{method.visibility.word} {typeText m method.returns} {method.name}({parameters m
        method.parameters}) \x7b"] [⟨0, .method method.name⟩] := by
      have hheader : header? s!"{method.visibility.word} {typeText m method.returns} {method.name}({parameters m
          method.parameters}) \x7b".toList = some (.method method.name) := by
        have hend : ((parameters m method.parameters).toList ++ ") \x7b".toList).getLast? = some '\x7b' := by
          rw [List.getLast?_append]
          rfl
        have hsome := header?_method hname method.visibility (fun hopening => (htype _ hopening).2 rfl) hend
        simpa [toString] using hsome
      refine reads_line (c := 'p') ?_ (by simp [toString, head?_word]) (by decide) (by decide) hheader
      simp only [toString, String.toList_append, List.forall_mem_append, and_assoc]
      exact ⟨hword, by decide, fun c hc => (htype c hc).1, by decide, ne_feed_of_alphanum hname, by decide,
        ne_feed_parameters hnames hparameters, by decide⟩
    have hreturn : reading.Reads [s!"return {value};"] [] := by
      refine reads_statement (c := 'r') ?_ (by simp [toString]) (by decide) (by decide)
      simp only [toString, String.toList_append, List.forall_mem_append]
      exact ⟨by decide, ne_feed_expr hnames hexpr hbody⟩
    have hindented : indent [s!"return {value};"] = [s!"{indentUnit}return {value};"] := by
      rw [indent_of_head? (c := 'r') (by simp [toString]) (by decide)]
      simp [toString, String.append_assoc]
    rw [← Except.ok.inj hlast]
    exact (hhead.append (hindented ▸ hreturn.indent)).append reads_closing
  · cases h

end Members

/-! ## Classes -/

/-- The block below the header of a class. Its fields and its constructors head nothing. -/
lemma reads_body {m : Model} (hnames : ∀ id, ∀ c ∈ (typeName m id).toList, c ≠ '\n' ∧ c ≠ '(') {t : WrapperType}
    (ht : t.Plain) {methods : List (List String)} (hmethods : t.methods.mapM (methodLines m) = .ok methods)
    {inner : List TypeTree} {nested : List (List String)}
    (hnested : List.Forall₂ (fun tree block => reading.Reads block (tree.headings 0)) inner nested) :
    reading.Reads (Render.dropEmptyEnd (spaced ((if t.fields.isEmpty then [] else [t.fields.map (fieldLine m)]) ++
      t.constructors.map (constructorLines m t.name) ++ methods ++ nested))) (TypeTree.members t inner) := by
  unfold WrapperType.Plain WrapperType.names at ht
  obtain ⟨hname, hmembers⟩ := List.forall_mem_cons.1 ht
  obtain ⟨hdata, hmethodNames⟩ := List.forall_mem_append.1 hmembers
  obtain ⟨hfieldNames, hconstructorNames⟩ := List.forall_mem_append.1 hdata
  refine TypeTree.reads_members (fun block hblock => ?_) hmethods (fun method hmethod lines hlines => ?_) hnested
  · rcases List.mem_append.1 hblock with hblock | hblock
    · split at hblock
      · cases hblock
      · rw [List.mem_singleton.1 hblock]
        refine .statements fun line hline => ?_
        obtain ⟨f, hf, rfl⟩ := List.mem_map.1 hline
        exact reads_fieldLine hnames (hfieldNames f.name (List.mem_map_of_mem hf))
    · obtain ⟨c, hc, rfl⟩ := List.mem_map.1 hblock
      refine reads_constructorLines hnames hname fun name hin => ?_
      exact hconstructorNames name (List.mem_flatMap.2 ⟨c, hc, hin⟩)
  · exact reads_methodLines hnames hlines fun name hin =>
      hmethodNames name (List.mem_flatMap.2 ⟨method, hmethod, hin⟩)

mutual

/-- A class is headed by its name, and below that come its methods and the classes in it. -/
theorem reads_classLines {m : Model} (hnames : ∀ id, ∀ c ∈ (typeName m id).toList, c ≠ '\n' ∧ c ≠ '(') :
    (tree : TypeTree) → (∀ t ∈ tree.types, t.Plain) → ∀ {lines : List String}, classLines m tree = .ok lines →
      reading.Reads lines (tree.headings 0)
  | .node id t inner, hplain, lines, h => by
    obtain ⟨ht, hinner⟩ := List.forall_mem_cons.1 hplain
    unfold classLines at h
    obtain ⟨methods, hmethods, h⟩ := bind_eq_ok.1 h
    obtain ⟨nested, hnested, hlast⟩ := bind_eq_ok.1 h
    have hname := ht t.name List.mem_cons_self
    have hdoc : reading.Reads (if t.doc.isEmpty then [] else docComment t.doc) [] := by
      split
      · exact .none
      · exact reads_docComment _
    have hhead {modifiers : String} (h : modifiers = "public" ∨ modifiers = "public static") :
        reading.Reads [s!"{modifiers} class {t.name} \x7b"] [⟨0, .type t.name⟩] := by
      have hends : ∀ c ∈ modifiers.toList, c ≠ '\n' := by rcases h with rfl | rfl <;> decide
      have hfirst : modifiers.toList.head? = some 'p' := by rcases h with rfl | rfl <;> rfl
      refine reads_line (c := 'p') ?_ (by simp [toString, hfirst]) (by decide) (by decide) (header?_class hname h)
      simp only [toString, String.toList_append, List.forall_mem_append, and_assoc]
      exact ⟨hends, by decide, ne_feed_of_alphanum hname, by decide⟩
    have hbody := reads_body hnames ht hmethods (reads_classesLines hnames inner hinner hnested)
    rw [← Except.ok.inj hlast, TypeTree.headings_node]
    have hclass := ((hdoc.append (hhead (ite_eq_or_eq (t.isTopLevel = true) _ _))).append hbody.indent).append reads_closing
    rwa [List.append_nil] at hclass

theorem reads_classesLines {m : Model} (hnames : ∀ id, ∀ c ∈ (typeName m id).toList, c ≠ '\n' ∧ c ≠ '(') :
    (trees : List TypeTree) → (∀ t ∈ TypeTree.allTypes trees, t.Plain) → ∀ {blocks : List (List String)},
      classesLines m trees = .ok blocks →
      List.Forall₂ (fun tree block => reading.Reads block (tree.headings 0)) trees blocks
  | [], _, blocks, h => by
    rw [← Except.ok.inj h]
    exact .nil
  | tree :: rest, hplain, blocks, h => by
    obtain ⟨hfirst, hrest⟩ := List.forall_mem_append.1 hplain
    unfold classesLines at h
    obtain ⟨lines, hlines, h⟩ := bind_eq_ok.1 h
    obtain ⟨others, hothers, hlast⟩ := bind_eq_ok.1 h
    rw [← Except.ok.inj hlast]
    exact .cons (reads_classLines hnames tree hfirst hlines) (reads_classesLines hnames rest hrest hothers)

end

/-! ## Files -/

variable {m : Model}

/-- Names of types are on one line and end before a parenthesis, if the package does. -/
lemma ne_of_mem_typeName (hplain : ∀ t ∈ m.types, t.Plain)
    (hpackages : ∀ package ∈ m.namespaces, ∀ c ∈ package.toList, c ≠ '\n' ∧ c ≠ '(') (id : TypeId) :
    ∀ c ∈ (typeName m id).toList, c ≠ '\n' ∧ c ≠ '(' := by
  obtain ⟨hname, hqualified⟩ := m.forall_mem_qualifiedName (P := fun c => c ≠ '\n' ∧ c ≠ '(') (by decide)
    (fun t ht c hc => by
      have hletters := hplain t ht t.name List.mem_cons_self
      exact ⟨ne_feed_of_alphanum hletters c hc, fun heq => notMem_name hletters (by decide) (heq ▸ hc)⟩) id
  unfold typeName
  split
  · next package _ hpackage =>
    split
    · exact hqualified
    · simp only [toString, String.toList_append, List.forall_mem_append]
      exact ⟨⟨hpackages package (m.mem_namespaces hpackage), by decide⟩, hname⟩
  · exact hqualified

/-- The lines in front of a class. -/
def preambleLines (comment package : String) : List String :=
  (if comment.isEmpty then [] else [comment]) ++ (if package.isEmpty then [] else ["package " ++ package ++ ";", ""]) ++
    ["import org.json.JSONArray;", "import org.json.JSONObject;"]

lemma closed_preambleLines (comment package : String) :
    closed (preambleLines comment package) = (preamble comment package).toList := by
  unfold preambleLines preamble
  split <;> split <;> simp [closed]

/-- What stands in front of a class heads nothing. -/
lemma reads_preambleLines {comment package : String} (hends : '\n' ∉ comment.toList)
    (hmark : comment = "" ∨ "//".toList <+: comment.toList) (hpackage : ∀ c ∈ package.toList, c ≠ '\n') :
    reading.Reads (preambleLines comment package) [] := by
  have hcomment : reading.Reads (if comment.isEmpty then [] else [comment]) [] := by
    split
    · exact .none
    · next hne =>
      obtain ⟨rest, hline⟩ := hmark.resolve_left (by simpa using hne)
      have hfirst : comment.toList.head? = some '/' := by
        rw [← hline]
        rfl
      have hopens : reading.opens comment.toList = false := by
        refine decide_eq_false fun hstrip => ?_
        obtain ⟨before, after, hsplit, hbefore⟩ := Text.exists_of_strip comment.toList
        rw [hstrip, ← hline] at hsplit
        cases before with
        | nil => exact absurd (List.cons.inj (List.cons.inj hsplit).2).1 (by decide)
        | cons c before =>
          obtain rfl := (List.cons.inj hsplit).1
          exact absurd (hbefore _ List.mem_cons_self) (by decide)
      have hreads := Reading.Reads.shown hends hfirst (by decide) hopens
      have hnone : reading.header? comment.toList = none := if_neg fun hheader => hheader.1 ⟨rest, hline⟩
      rwa [hnone] at hreads
  have hdeclared : reading.Reads (if package.isEmpty then [] else ["package " ++ package ++ ";", ""]) [] := by
    split
    · exact .none
    · have hstatement : reading.Reads ["package " ++ package ++ ";"] [] := by
        refine reads_statement (c := 'p') ?_ (by simp) (by decide) (by decide)
        rw [String.toList_append, List.forall_mem_append]
        exact ⟨by decide, hpackage⟩
      exact hstatement.append .emptyLine
  have himports : reading.Reads ["import org.json.JSONArray;", "import org.json.JSONObject;"] [] := by
    have harray : reading.Reads ["import org.json.JSONArray" ++ ";"] [] :=
      reads_statement (c := 'i') (by decide) (by decide) (by decide) (by decide)
    have hobject : reading.Reads ["import org.json.JSONObject" ++ ";"] [] :=
      reads_statement (c := 'i') (by decide) (by decide) (by decide) (by decide)
    exact harray.append hobject
  exact (hcomment.append hdeclared).append himports

/-- The path of a file is made of the name of its class. -/
lemma filePath_inj {package a b : String} (h : filePath package a = filePath package b) : a = b := by
  unfold filePath at h
  dsimp only at h
  rw [← String.toList_inj] at h ⊢
  split at h <;>
  · simp only [String.toList_append, List.append_cancel_left_eq, List.append_cancel_right_eq] at h
    exact h

/-- The file of a class has the outline of the class. -/
lemma outline?_of_classLines {comment package : String} {tree : TypeTree} {lines : List String}
    (hends : '\n' ∉ comment.toList) (hmark : comment = "" ∨ "//".toList <+: comment.toList)
    (hpackage : ∀ c ∈ package.toList, c ≠ '\n') (hnames : ∀ id, ∀ c ∈ (typeName m id).toList, c ≠ '\n' ∧ c ≠ '(')
    (hplain : ∀ t ∈ tree.types, t.Plain) (h : classLines m tree = .ok lines) :
    reading.outline? (preamble comment package ++ "\n" ++ unlines lines ++ "\n") = some [tree.outline 0] := by
  have hne : lines ≠ [] := by
    obtain ⟨line, hline, -⟩ := exists_line_of_classLines h
    exact List.ne_nil_of_mem hline
  have hreads := ((reads_preambleLines hends hmark hpackage).append .emptyLine).append
    (reads_classLines hnames tree hplain h)
  have htext : (preamble comment package ++ "\n" ++ unlines lines ++ "\n").toList =
      closed (preambleLines comment package ++ [""] ++ lines) := by
    have hempty : closed [""] = ['\n'] := by decide
    rw [closed_append, closed_append, closed_preambleLines, closed_unlines hne, hempty]
    simp [String.toList_append]
  have hone : Outline.ofHeadings (tree.headings 0) = [tree.outline 0] := by
    have hall := TypeTree.ofHeadings_allHeadings 0 [tree]
    rwa [TypeTree.allHeadings, TypeTree.allHeadings, List.append_nil] at hall
  rw [Reading.outline?, hreads.headings?_eq htext]
  exact congrArg some hone

/-- The text of a file. -/
def fileText (comment package : String) (lines : List String) : String :=
  preamble comment package ++ "\n" ++ unlines lines ++ "\n"

/-- Files with paths of their own stand in the order of the trees they are made from. -/
lemma forall₂_of_foldlM {P : TypeTree → String → Prop} {comment package : String} {trees : List TypeTree}
    {before files : Sources}
    (hmakes : ∀ tree ∈ trees, ∀ lines, classLines m tree = .ok lines → P tree (fileText comment package lines))
    (hpaths : (before.keys ++ trees.map fun tree => filePath package tree.root.2.name).Nodup)
    (h : trees.foldlM (fun sources tree => do
      let .node _ t _ := tree
      let lines ← classLines m tree
      return sources.put (filePath package t.name) (preamble comment package ++ "\n" ++ unlines lines ++ "\n"))
      before = .ok files) :
    ∃ made, files = before ++ made ∧ List.Forall₂ (fun tree (file : String × String) =>
      file.1 = filePath package tree.root.2.name ∧ P tree file.2) trees made := by
  induction trees generalizing before with
  | nil =>
    obtain rfl : before = files := by simpa [pure, Except.pure] using h
    exact ⟨[], (List.append_nil _).symm, .nil⟩
  | cons tree rest ih =>
    obtain ⟨hfirst, hrest⟩ := List.forall_mem_cons.1 hmakes
    obtain ⟨id, t, inner⟩ := tree
    rw [List.foldlM_cons] at h
    obtain ⟨sources, hone, h⟩ := bind_eq_ok.1 h
    obtain ⟨lines, hlines, hput⟩ := bind_eq_ok.1 hone
    have hnew : filePath package t.name ∉ before.keys := by
      rw [List.map_cons, List.nodup_append] at hpaths
      exact fun hmem => hpaths.2.2 _ hmem _ List.mem_cons_self rfl
    obtain rfl := Except.ok.inj hput
    rw [Table.put_of_notMem hnew] at h
    have hfile := hfirst lines hlines
    rw [fileText] at hfile
    generalize preamble comment package ++ "\n" ++ unlines lines ++ "\n" = text at h hfile
    have hbehind : (Table.keys (before ++ [(filePath package t.name, text)]) ++
        rest.map fun tree => filePath package tree.root.2.name).Nodup := by
      rw [Table.keys, List.map_append, List.append_assoc]
      exact hpaths
    obtain ⟨made, rfl, hmade⟩ := ih hrest hbehind h
    exact ⟨(filePath package t.name, text) :: made, List.append_assoc _ _ _, .cons ⟨rfl, hfile⟩ hmade⟩

/-- A package has one file for each top-level type, under a path of its own. -/
lemma forall₂_of_sources {P : TypeTree → String → Prop} {comment package : String} {files : Sources}
    (hmakes : ∀ tree ∈ m.trees 0, ∀ lines, classLines m tree = .ok lines → P tree (fileText comment package lines))
    (hnamespaces : m.namespaces = [package]) (hapart : ((m.trees 0).map fun tree => tree.root.2.name).Nodup)
    (h : sources m comment = .ok files) :
    List.Forall₂ (fun tree (file : String × String) => file.1 = filePath package tree.root.2.name ∧ P tree file.2)
      (m.trees 0) files ∧ files.keys.Nodup := by
  have hpaths : ((m.trees 0).map fun tree => filePath package tree.root.2.name).Nodup := by
    have hmapped := hapart.map fun a b (hpath : filePath package a = filePath package b) => filePath_inj hpath
    rwa [List.map_map] at hmapped
  unfold sources at h
  rw [hnamespaces, List.zipIdx_singleton, List.foldlM_cons] at h
  obtain ⟨sources, hfold, hlast⟩ := bind_eq_ok.1 h
  obtain rfl : sources = files := by simpa [pure, Except.pure] using hlast
  have hfresh : (Table.keys ([] : Sources) ++ (m.trees 0).map fun tree => filePath package tree.root.2.name).Nodup :=
    hpaths
  obtain ⟨made, hall, hmade⟩ := forall₂_of_foldlM hmakes hfresh hfold
  obtain rfl : sources = made := hall
  refine ⟨hmade, ?_⟩
  have hkeys : sources.keys = (m.trees 0).map fun tree => filePath package tree.root.2.name := by
    clear hlast h hfold hmakes
    generalize m.trees 0 = trees at hmade
    induction hmade with
    | nil => rfl
    | cons hfile _ ih => exact congrArg₂ List.cons hfile.1 ih
  rw [hkeys]
  exact hpaths

/-- The file of a top-level type has the outline of the type, if the comment is one of a single line and names are
letters and digits. -/
theorem outline?_of_sources {comment package : String} {files : Sources} (hends : '\n' ∉ comment.toList)
    (hmark : comment = "" ∨ "//".toList <+: comment.toList) (hpackage : ∀ c ∈ package.toList, c ≠ '\n' ∧ c ≠ '(')
    (hplain : ∀ t ∈ m.types, t.Plain) (hnamespaces : m.namespaces = [package])
    (hapart : ((m.trees 0).map fun tree => tree.root.2.name).Nodup) (h : sources m comment = .ok files) :
    List.Forall₂ (fun tree (file : String × String) =>
      file.1 = filePath package tree.root.2.name ∧ reading.outline? file.2 = some [tree.outline 0]) (m.trees 0) files ∧
      files.keys.Nodup := by
  have hnames := ne_of_mem_typeName hplain (by rw [hnamespaces]; exact List.forall_mem_singleton.2 hpackage)
  refine forall₂_of_sources (P := fun tree text => reading.outline? text = some [tree.outline 0])
    (fun tree htree lines hlines => ?_) hnamespaces hapart h
  refine outline?_of_classLines hends hmark (fun c hc => (hpackage c hc).1) hnames (fun t ht => ?_) hlines
  exact hplain t (m.types_treesFrom _ _ (TypeTree.types_subset_allTypes htree ht))

end Render.Java

end SchemaAccessors
