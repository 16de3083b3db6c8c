import SchemaAccessors.Proofs.Docstrings
import SchemaAccessors.Proofs.Indentation
import SchemaAccessors.Proofs.Outcome

/-!
# Python code and its check

Generated modules are well formed but for two things that the check of Python code looks for. One is a null
character: printed values and names have none, so it can only come with the documentation. The other is indentation:
a class takes two levels more than classes are nested in it, itself among them, so a module passes if no class lies
too deep, and only then. Documentation does not matter for that, since no line of it is mistaken for the end of
its docstring.
-/

namespace SchemaAccessors

open Text (IsInLine IsNumeral)

/-! ## Characters of values -/

lemma Text.isInLine_quoted (text : String) : ∀ c ∈ (quoted text).toList, IsInLine c := by
  have hchar {mark : Char} (hmark : IsInLine mark) (c : Char) : ∀ d ∈ quotedChar mark c, IsInLine d := by
    unfold quotedChar
    dsimp only
    split_ifs with hself hfeed hreturn htab hshown hbyte hunit
    · have hc : IsInLine c := by
        rcases hself with rfl | rfl
        · exact hmark
        · decide
      exact List.forall_mem_cons.2 ⟨by decide, List.forall_mem_singleton.2 hc⟩
    · decide
    · decide
    · decide
    · refine List.forall_mem_singleton.2 ⟨hfeed, ?_⟩
      rintro rfl
      exact absurd hshown (by decide)
    all_goals
      rw [List.forall_mem_cons, List.forall_mem_cons]
      exact ⟨by decide, by decide, isInLine_hexDigits _ _⟩
  have hmark : IsInLine (quotationMark text.toList) := by
    unfold quotationMark
    split <;> decide
  unfold quoted
  dsimp only
  rw [String.toList_ofList, List.forall_mem_append, List.forall_mem_cons, List.forall_mem_singleton]
  refine ⟨⟨hmark, fun c hc => ?_⟩, hmark⟩
  obtain ⟨d, -, hd⟩ := List.mem_flatMap.1 hc
  exact hchar hmark d c hd

namespace Json

mutual

lemma isInLine_inline : (value : Json) → ∀ c ∈ value.inline.toList, IsInLine c
  | null => by decide
  | bool b => by cases b <;> decide
  | int n => fun c hc => isInLine_of_isNumeral (isNumeral_int n c hc)
  | float x => fun c hc => isInLine_of_isNumeral (x.isNumeral_plain c hc)
  | str s => Text.isInLine_quoted s
  | arr xs => by
    have hseparator : ∀ c ∈ ", ".toList, IsInLine c := by decide
    have hparts := forall_mem_intercalate hseparator (isInLine_inlineElements xs)
    simp only [inline, String.toList_append, List.forall_mem_append]
    exact ⟨⟨by decide, hparts⟩, by decide⟩
  | obj ms => by
    have hseparator : ∀ c ∈ ", ".toList, IsInLine c := by decide
    have hparts := forall_mem_intercalate hseparator (isInLine_inlineMembers ms)
    simp only [inline, String.toList_append, List.forall_mem_append]
    exact ⟨⟨by decide, hparts⟩, by decide⟩

lemma isInLine_inlineElements : (xs : List Json) → ∀ part ∈ inlineElements xs, ∀ c ∈ part.toList, IsInLine c
  | [] => fun _ hpart => (List.not_mem_nil hpart).elim
  | x :: xs => List.forall_mem_cons.2 ⟨isInLine_inline x, isInLine_inlineElements xs⟩

lemma isInLine_inlineMembers : (ms : Members) → ∀ part ∈ inlineMembers ms, ∀ c ∈ part.toList, IsInLine c
  | [] => fun _ hpart => (List.not_mem_nil hpart).elim
  | (key, x) :: ms => by
    refine List.forall_mem_cons.2 ⟨?_, isInLine_inlineMembers ms⟩
    simp only [String.toList_append, List.forall_mem_append]
    exact ⟨⟨Text.isInLine_quoted key, by decide⟩, isInLine_inline x⟩

end

end Json

/-- A name of letters and digits has an underscore at most besides in lower case. -/
lemma Naming.isInLine_snake {name : String} (h : ∀ c ∈ name.toList, c.isAlphanum = true) :
    ∀ c ∈ (snake name).toList, IsInLine c := by
  have hseparated (text : List Char) (htext : ∀ c ∈ text, c.isAlphanum = true) :
      ∀ c ∈ separateCapitals text, c.toNat < 128 ∧ IsInLine c := by
    have hone {c : Char} (hc : c.isAlphanum = true) : c.toNat < 128 ∧ IsInLine c :=
      ⟨toNat_lt_of_isAlphanum hc, isInLine_of_isAlphanum hc⟩
    fun_induction separateCapitals text with
    | case1 a b rest _ ih =>
      obtain ⟨ha, hrest⟩ := List.forall_mem_cons.1 htext
      exact List.forall_mem_cons.2 ⟨hone ha, List.forall_mem_cons.2 ⟨by decide, ih hrest⟩⟩
    | case2 a b rest _ ih =>
      obtain ⟨ha, hrest⟩ := List.forall_mem_cons.1 htext
      exact List.forall_mem_cons.2 ⟨hone ha, ih hrest⟩
    | case3 short => exact fun c hc => hone (htext c hc)
  have hlower (before text : List Char) (htext : ∀ c ∈ text, c.toNat < 128 ∧ IsInLine c) :
      ∀ c ∈ Text.lowerFrom before text, IsInLine c := by
    have hchar : ∀ n < 128, IsInLine (Char.ofNat n) → ∀ c ∈ Text.lowerChar (Char.ofNat n), IsInLine c := by
      decide
    induction text generalizing before with
    | nil => exact fun c hc => (List.not_mem_nil hc).elim
    | cons c rest ih =>
      obtain ⟨⟨hascii, hc⟩, hrest⟩ := List.forall_mem_cons.1 htext
      have hsigma : c ≠ 'Σ' := by
        rintro rfl
        exact absurd hascii (by decide)
      rw [Text.lowerFrom, if_neg hsigma, List.forall_mem_append]
      refine ⟨?_, ih _ hrest⟩
      have hlowered := hchar c.toNat hascii
      rw [Char.ofNat_toNat] at hlowered
      exact hlowered hc
  rw [snake, Text.lower, String.toList_ofList, String.toList_ofList]
  exact hlower [] _ (hseparated _ h)

/-! ## Heights -/

mutual

/-- How many classes lie inside one another in a tree at most. -/
def TypeTree.height : TypeTree → Nat
  | .node _ _ inner => TypeTree.greatestHeight inner + 1

def TypeTree.greatestHeight : List TypeTree → Nat
  | [] => 0
  | tree :: rest => max tree.height (TypeTree.greatestHeight rest)

end

lemma TypeTree.greatestHeight_lt_iff {trees : List TypeTree} {n : Nat} (hn : 0 < n) :
    greatestHeight trees < n ↔ ∀ tree ∈ trees, tree.height < n := by
  induction trees with
  | nil => simpa [greatestHeight] using hn
  | cons tree rest ih => rw [greatestHeight, Nat.max_lt, List.forall_mem_cons, ih]

namespace Render.Python

/-! ## Blocks of code -/

/-- Lines of code that take `k` levels. -/
structure IsCode (k : Nat) (lines : List String) : Prop where
  inLine : ∀ line ∈ lines, ∀ c ∈ line.toList, IsInLine c
  levels : TakesLevels k lines

namespace IsCode

lemma empty : IsCode 0 [] :=
  ⟨fun _ hline => (List.not_mem_nil hline).elim, .of_empty fun _ hline => (List.not_mem_nil hline).elim⟩

lemma emptyLine : IsCode 0 [""] :=
  ⟨List.forall_mem_singleton.2 (by decide), .of_empty (List.forall_mem_singleton.2 rfl)⟩

lemma append {j k : Nat} {a b : List String} (ha : IsCode j a) (hb : IsCode k b) : IsCode (max j k) (a ++ b) :=
  ⟨List.forall_mem_append.2 ⟨ha.inLine, hb.inLine⟩, ha.levels.append hb.levels⟩

/-- A line that begins with a letter or another sign, but with no blank and no quotation mark. -/
lemma statement {line : String} {c : Char} (hline : ∀ c ∈ line.toList, IsInLine c)
    (hfirst : line.toList.head? = some c) (hshown : Text.isBlank c = false) (hquote : c ≠ '"') : IsCode 1 [line] :=
  ⟨List.forall_mem_singleton.2 hline, .statement hfirst hshown hquote⟩

lemma statements {lines : List String} (hne : lines ≠ []) (h : ∀ line ∈ lines, IsCode 1 [line]) : IsCode 1 lines :=
  ⟨fun line hline => (h line hline).inLine line List.mem_cons_self,
    .statements hne fun line hline => (h line hline).levels⟩

lemma block {k : Nat} {line : String} {body : List String} (hline : IsCode 1 [line]) (hbody : IsCode k body) :
    IsCode (k + 1) (line :: indent body) := by
  refine ⟨List.forall_mem_cons.2 ⟨hline.inLine line List.mem_cons_self, fun l hl => ?_⟩,
    hline.levels.block hbody.levels⟩
  obtain ⟨l', hl', rfl⟩ := List.mem_map.1 hl
  unfold indentLine
  split
  · decide
  · rw [String.toList_append, List.forall_mem_append]
    exact ⟨by decide, hbody.inLine l' hl'⟩

lemma ne_nil {k : Nat} {lines : List String} (h : IsCode (k + 1) lines) : lines ≠ [] := by
  rintro rfl
  have hnone := h.levels 0
  rw [if_neg (by omega)] at hnone
  cases hnone

lemma feed_notMem {k : Nat} {lines : List String} (h : IsCode k lines) : ∀ line ∈ lines, '\n' ∉ line.toList :=
  fun line hline hfeed => (h.inLine line hline _ hfeed).1 rfl

lemma dropEmptyEnd {k : Nat} {lines : List String} (h : IsCode k lines) : IsCode k (Render.dropEmptyEnd lines) := by
  refine ⟨fun line hline => h.inLine line ?_, h.levels.dropEmptyEnd⟩
  exact List.mem_reverse.1 (List.dropWhile_subset _ (List.mem_reverse.1 hline))

lemma spaced {k : Nat} {blocks : List (List String)} (hne : blocks ≠ []) (h : ∀ block ∈ blocks, IsCode k block) :
    IsCode k (Render.spaced blocks) := by
  induction blocks with
  | nil => exact absurd rfl hne
  | cons block rest ih =>
    obtain ⟨hblock, hrest⟩ := List.forall_mem_cons.1 h
    have hfirst : IsCode k (block ++ [""]) := by simpa using hblock.append emptyLine
    cases rest with
    | nil => simpa [Render.spaced] using hfirst
    | cons next rest =>
      have hboth := hfirst.append (ih (List.cons_ne_nil _ _) hrest)
      rwa [Nat.max_self] at hboth

end IsCode

/-! ## Members -/

lemma isCode_docstring {doc : String} (h : '\x00' ∉ doc.toList) : IsCode 1 (docstring doc) := by
  refine ⟨?_, .docstring fun line hline => isDocMark_of_mem_lines hline⟩
  simp only [docstring, List.forall_mem_append, List.forall_mem_singleton]
  refine ⟨⟨by decide, fun line hline c hc => ?_⟩, by decide⟩
  constructor
  · rintro rfl
    exact Text.feed_notMem_of_mem_lines hline hc
  · rintro rfl
    have hmem := Text.subset_of_mem_lines hline hc
    rw [String.toList_ofList] at hmem
    rcases mem_escapeDoc hmem with hnull | hnull
    · exact h hnull
    · exact absurd hnull (by decide)

section Members

variable {m : Model} (hnames : ∀ id, ∀ c ∈ (m.qualifiedName id).toList, IsInLine c)

include hnames

lemma isInLine_typeText (r : TypeRef) : ∀ c ∈ (typeText m r).toList, IsInLine c := by
  unfold typeText
  split
  · exact hnames _
  · cases r.raw <;> decide

omit hnames in
lemma isInLine_fieldText {f : Field} (h : ∀ c ∈ f.name.toList, c.isAlphanum = true) :
    ∀ c ∈ (fieldText f).toList, IsInLine c := by
  rw [fieldText, String.toList_append, List.forall_mem_append]
  exact ⟨by decide, Naming.isInLine_snake h⟩

omit hnames in
lemma isInLine_literal (value : Json) : ∀ c ∈ (literal value).toList, IsInLine c := by
  have hnumber (x : Binary64) : ∀ c ∈ (x.text Binary64.plainLayout).toList, IsInLine c := fun c hc =>
    isInLine_of_isNumeral (x.isNumeral_plain c hc)
  unfold literal
  split
  · exact Json.isInLine_encodeString _
  · exact hnumber _
  · simp only [String.toList_append, List.forall_mem_append]
    exact ⟨⟨by decide, hnumber _⟩, by decide⟩
  · exact Json.isInLine_inline _

lemma isInLine_expr {e : Expr} {text : String} (h : expr m e = .ok text)
    (hplain : ∀ name ∈ e.names, ∀ c ∈ name.toList, c.isAlphanum = true) : ∀ c ∈ text.toList, IsInLine c := by
  induction e generalizing text with
  | field f =>
    rw [← Except.ok.inj h]
    exact isInLine_fieldText (hplain _ List.mem_cons_self)
  | literal value =>
    rw [← Except.ok.inj h]
    exact isInLine_literal value
  | property f key kind default? =>
    have hfield := isInLine_fieldText (hplain _ List.mem_cons_self)
    have hkey := Json.isInLine_encodeString key
    cases default? with
    | none =>
      rw [← Except.ok.inj h]
      simp only [toString, String.toList_append, List.forall_mem_append, and_assoc]
      exact ⟨hfield, by decide, hkey, by decide⟩
    | some value =>
      rw [← Except.ok.inj h]
      simp only [toString, String.toList_append, List.forall_mem_append, and_assoc]
      exact ⟨hfield, by decide, hkey, by decide, isInLine_literal value, by decide⟩
  | item f index kind default? =>
    have hfield := isInLine_fieldText (hplain _ List.mem_cons_self)
    have hindex := Naming.isInLine_snake (hplain _ (List.mem_cons_of_mem _ List.mem_cons_self))
    cases default? with
    | none =>
      rw [← Except.ok.inj h]
      simp only [toString, String.toList_append, List.forall_mem_append, and_assoc]
      exact ⟨hfield, by decide, hindex, by decide⟩
    | some value =>
      rw [← Except.ok.inj h]
      simp only [toString, String.toList_append, List.forall_mem_append, and_assoc]
      exact ⟨hfield, by decide, hindex, by decide, hindex, by decide, hfield, by decide, isInLine_literal value⟩
  | presence f key =>
    rw [← Except.ok.inj h]
    simp only [toString, String.toList_append, List.forall_mem_append, and_assoc]
    exact ⟨Json.isInLine_encodeString key, by decide, isInLine_fieldText (hplain _ List.mem_cons_self)⟩
  | length f =>
    rw [← Except.ok.inj h]
    simp only [toString, String.toList_append, List.forall_mem_append, and_assoc]
    exact ⟨by decide, isInLine_fieldText (hplain _ List.mem_cons_self), by decide⟩
  | construct id argument ih =>
    obtain ⟨inner, hinner, hlast⟩ := bind_eq_ok.1 h
    rw [← Except.ok.inj hlast]
    simp only [toString, String.toList_append, List.forall_mem_append, and_assoc]
    exact ⟨hnames id, by decide, ih hinner hplain, by decide⟩
  | foreign value => cases h

lemma isInLine_parameters {ps : List Parameter} (h : ∀ name ∈ ps.map (·.name), ∀ c ∈ name.toList, c.isAlphanum = true) :
    ∀ c ∈ (parameters m ps).toList, IsInLine c := by
  refine forall_mem_intercalate (by decide) (List.forall_mem_cons.2 ⟨by decide, fun text htext => ?_⟩)
  obtain ⟨p, hp, rfl⟩ := List.mem_map.1 htext
  have hname := Naming.isInLine_snake (h p.name (List.mem_map_of_mem hp))
  simp only [parameter, toString, String.toList_append, List.forall_mem_append, and_assoc]
  exact ⟨hname, by decide, isInLine_typeText hnames p.type⟩

omit hnames in
/-- What a constructor assigns. -/
lemma isCode_assignments {assignments : List (String × String)}
    (h : ∀ p ∈ assignments, ∀ name ∈ [p.1, p.2], ∀ c ∈ name.toList, c.isAlphanum = true) :
    ∀ line ∈ assignments.map fun (field, parameter) => s!"self._{Naming.snake field} = {Naming.snake parameter}",
      IsCode 1 [line] := by
  intro line hline
  obtain ⟨⟨field, parameter⟩, hmem, rfl⟩ := List.mem_map.1 hline
  have hboth : ∀ name ∈ [field, parameter], ∀ c ∈ (Naming.snake name).toList, IsInLine c := fun name hin =>
    Naming.isInLine_snake (h _ hmem name hin)
  refine .statement (c := 's') ?_ (by simp [toString]) (by decide) (by decide)
  simp only [toString, String.toList_append, List.forall_mem_append, and_assoc]
  exact ⟨by decide, hboth field List.mem_cons_self, by decide,
    hboth parameter (List.mem_cons_of_mem _ List.mem_cons_self)⟩

lemma isCode_constructorLines {c : Constructor} (h : ∀ name ∈ c.names, ∀ c ∈ name.toList, c.isAlphanum = true) :
    IsCode 2 (constructorLines m c) := by
  obtain ⟨hparameters, hassigned⟩ := List.forall_mem_append.1 h
  have hfirst : IsCode 1 [s!"def __init__({parameters m c.parameters}) -> None:"] := by
    refine .statement (c := 'd') ?_ (by simp [toString]) (by decide) (by decide)
    simp only [toString, String.toList_append, List.forall_mem_append, and_assoc]
    exact ⟨by decide, isInLine_parameters hnames hparameters, by decide⟩
  unfold constructorLines
  dsimp only
  refine .block hfirst ?_
  split
  · exact .statement (c := 'p') (by decide) rfl (by decide) (by decide)
  · next hne =>
    refine .statements (by simpa using hne) (isCode_assignments fun p hp name hin => ?_)
    exact hassigned name (List.mem_flatMap.2 ⟨p, hp, hin⟩)

lemma isCode_methodLines {method : Method} {lines : List String} (h : methodLines m method = .ok lines)
    (hplain : ∀ name ∈ method.names, ∀ c ∈ name.toList, c.isAlphanum = true) : IsCode 2 lines := by
  unfold Method.names at hplain
  obtain ⟨hname, hrest⟩ := List.forall_mem_cons.1 hplain
  obtain ⟨hparameters, hbody⟩ := List.forall_mem_append.1 hrest
  unfold methodLines at h
  split at h
  · next body hsome =>
    rw [hsome] at hbody
    obtain ⟨value, hexpr, hlast⟩ := bind_eq_ok.1 h
    have hreturn : IsCode 1 ["return " ++ value] := by
      refine .statement (c := 'r') ?_ (by simp) (by decide) (by decide)
      simp only [String.toList_append, List.forall_mem_append]
      exact ⟨by decide, isInLine_expr hnames hexpr hbody⟩
    have hfirst : ("return " ++ value).toList.head? = some 'r' := by simp
    have hindented : indent ["return " ++ value] = [indentUnit ++ "return " ++ value] := by
      rw [indent_of_head? hfirst (by decide), String.append_assoc]
    rw [← Except.ok.inj hlast]
    refine hindented ▸ IsCode.block ?_ hreturn
    refine .statement (c := 'd') ?_ (by simp [toString]) (by decide) (by decide)
    simp only [toString, String.toList_append, List.forall_mem_append, and_assoc]
    exact ⟨by decide, fun c hc => isInLine_of_isAlphanum (hname c hc), by decide,
      isInLine_parameters hnames hparameters, by decide, isInLine_typeText hnames _, by decide⟩
  · cases h

end Members

end Render.Python

/-! ## Classes -/

/-- What the code of a class needs of its type: names of letters and digits, no null character in what is copied as it
is, and something below the head of the class in any case. -/
structure WrapperType.Regular (t : WrapperType) : Prop where
  plain : t.Plain
  doc : '\x00' ∉ t.doc.toList
  constructed : t.constructors ≠ []

namespace Render.Python

/-- Classes with empty lines around them take two levels more than there are classes inside one another. -/
lemma isCode_flatMap {trees : List TypeTree} {blocks : List (List String)}
    (h : List.Forall₂ (fun tree block => IsCode (tree.height + 2) block) trees blocks) {before after : List String}
    (hbefore : IsCode 0 before) (hafter : IsCode 0 after) :
    IsCode (if trees = [] then 0 else TypeTree.greatestHeight trees + 2)
      (blocks.flatMap fun block => before ++ block ++ after) := by
  induction h with
  | nil => exact .empty
  | @cons tree block trees blocks hblock _ ih =>
    have hlevels : max (max (max 0 (tree.height + 2)) 0)
        (if trees = [] then 0 else TypeTree.greatestHeight trees + 2) =
        TypeTree.greatestHeight (tree :: trees) + 2 := by
      rw [TypeTree.greatestHeight]
      split
      · next hempty =>
        rw [hempty, TypeTree.greatestHeight]
        omega
      · omega
    rw [if_neg (List.cons_ne_nil _ _), ← hlevels, List.flatMap_cons]
    exact ((hbefore.append hblock).append hafter).append ih

/-- The blocks of a class apart from the classes inside it. -/
lemma isCode_members {m : Model} (hnames : ∀ id, ∀ c ∈ (m.qualifiedName id).toList, IsInLine c) {t : WrapperType}
    (ht : t.Regular) {methods : List (List String)} (hmethods : t.methods.mapM (methodLines m) = .ok methods) :
    IsCode 2 (spaced ((if t.doc.isEmpty then [] else [docstring t.doc]) ++
      t.constructors.map (constructorLines m) ++ methods)) := by
  have hplain := ht.plain
  unfold WrapperType.Plain WrapperType.names at hplain
  obtain ⟨-, hmembers⟩ := List.forall_mem_cons.1 hplain
  obtain ⟨hdata, hmethodNames⟩ := List.forall_mem_append.1 hmembers
  have hdoc : ∃ k ≤ 2, IsCode k (spaced (if t.doc.isEmpty then [] else [docstring t.doc])) := by
    split
    · exact ⟨0, by omega, .empty⟩
    · exact ⟨1, by omega, .spaced (List.cons_ne_nil _ _) (List.forall_mem_singleton.2 (isCode_docstring ht.doc))⟩
  have hconstructors : IsCode 2 (spaced (t.constructors.map (constructorLines m))) := by
    refine .spaced (by simpa using ht.constructed) fun block hblock => ?_
    obtain ⟨c, hc, rfl⟩ := List.mem_map.1 hblock
    refine isCode_constructorLines hnames fun name hin => ?_
    exact (List.forall_mem_append.1 hdata).2 name (List.mem_flatMap.2 ⟨c, hc, hin⟩)
  have hmethodBlocks : ∃ k ≤ 2, IsCode k (spaced methods) := by
    by_cases hempty : methods = []
    · exact ⟨0, by omega, hempty ▸ .empty⟩
    · refine ⟨2, le_rfl, .spaced hempty fun block hblock => ?_⟩
      obtain ⟨method, hmethod, hlines⟩ := exists_of_mapM_eq_ok hmethods block hblock
      refine isCode_methodLines hnames hlines fun name hin => ?_
      exact hmethodNames name (List.mem_flatMap.2 ⟨method, hmethod, hin⟩)
  obtain ⟨j, hj, hdoc⟩ := hdoc
  obtain ⟨k, hk, hmethodBlocks⟩ := hmethodBlocks
  have hlevels : max (max j 2) k = 2 := by omega
  unfold spaced at hdoc hconstructors hmethodBlocks ⊢
  rw [List.flatMap_append, List.flatMap_append, ← hlevels]
  exact (hdoc.append hconstructors).append hmethodBlocks

/-- The block below the head of a class. -/
lemma isCode_body {m : Model} (hnames : ∀ id, ∀ c ∈ (m.qualifiedName id).toList, IsInLine c) {t : WrapperType}
    (ht : t.Regular) {methods : List (List String)} (hmethods : t.methods.mapM (methodLines m) = .ok methods)
    {inner : List TypeTree} {nested : List (List String)}
    (hnested : List.Forall₂ (fun tree block => IsCode (tree.height + 2) block) inner nested) :
    IsCode (TypeTree.greatestHeight inner + 2) (Render.dropEmptyEnd (spaced ((if t.doc.isEmpty then []
      else [docstring t.doc]) ++ t.constructors.map (constructorLines m) ++ methods ++ nested))) := by
  have hclasses : IsCode (if inner = [] then 0 else TypeTree.greatestHeight inner + 2) (spaced nested) :=
    isCode_flatMap hnested .empty .emptyLine
  have hlevels : max 2 (if inner = [] then 0 else TypeTree.greatestHeight inner + 2) =
      TypeTree.greatestHeight inner + 2 := by
    split
    · next hempty =>
      rw [hempty, TypeTree.greatestHeight]
      omega
    · omega
  have hboth := (isCode_members hnames ht hmethods).append hclasses
  rw [hlevels] at hboth
  unfold spaced at hboth ⊢
  rw [List.flatMap_append]
  exact hboth.dropEmptyEnd

mutual

/-- A class takes two levels more than there are classes inside one another in it. -/
theorem isCode_classLines {m : Model} (hnames : ∀ id, ∀ c ∈ (m.qualifiedName id).toList, IsInLine c) :
    (tree : TypeTree) → (∀ t ∈ tree.types, t.Regular) → ∀ {lines : List String}, classLines m tree = .ok lines →
      IsCode (tree.height + 2) lines
  | .node id t inner, hregular, lines, h => by
    obtain ⟨ht, hinner⟩ := List.forall_mem_cons.1 hregular
    unfold classLines at h
    obtain ⟨methods, hmethods, h⟩ := bind_eq_ok.1 h
    obtain ⟨nested, hnested, hlast⟩ := bind_eq_ok.1 h
    have hbody := isCode_body hnames ht hmethods (isCode_classesLines hnames inner hinner hnested)
    have hname := ht.plain t.name List.mem_cons_self
    have hhead : IsCode 1 [s!"class {t.name}:"] := by
      refine .statement (c := 'c') ?_ (by simp [toString]) (by decide) (by decide)
      simp only [toString, String.toList_append, List.forall_mem_append, and_assoc]
      exact ⟨by decide, fun c hc => isInLine_of_isAlphanum (hname c hc), by decide⟩
    dsimp only at hlast
    rw [if_neg (mt List.isEmpty_iff.1 hbody.ne_nil)] at hlast
    rw [← Except.ok.inj hlast]
    exact .block hhead hbody

theorem isCode_classesLines {m : Model} (hnames : ∀ id, ∀ c ∈ (m.qualifiedName id).toList, IsInLine c) :
    (trees : List TypeTree) → (∀ t ∈ TypeTree.allTypes trees, t.Regular) → ∀ {blocks : List (List String)},
      classesLines m trees = .ok blocks →
      List.Forall₂ (fun tree block => IsCode (tree.height + 2) block) trees blocks
  | [], _, blocks, h => by
    rw [← Except.ok.inj h]
    exact .nil
  | tree :: rest, hregular, blocks, h => by
    obtain ⟨hfirst, hrest⟩ := List.forall_mem_append.1 hregular
    unfold classesLines at h
    obtain ⟨lines, hlines, h⟩ := bind_eq_ok.1 h
    obtain ⟨others, hothers, hlast⟩ := bind_eq_ok.1 h
    rw [← Except.ok.inj hlast]
    exact .cons (isCode_classLines hnames tree hfirst hlines) (isCode_classesLines hnames rest hrest hothers)

end

/-! ## Modules -/

variable {m : Model}

lemma isInLine_qualifiedName (hplain : ∀ t ∈ m.types, t.Plain) (id : TypeId) :
    ∀ c ∈ (m.qualifiedName id).toList, IsInLine c :=
  (m.forall_mem_qualifiedName (by decide) (fun t ht c hc =>
    isInLine_of_isAlphanum (hplain t ht t.name List.mem_cons_self c hc)) id).2

/-- The lines in front of the classes. -/
def preambleLines (comment : String) : List String :=
  (if comment.isEmpty then [] else [comment]) ++ ["from __future__ import annotations", "", "from typing import Any"]

lemma closed_preambleLines (comment : String) :
    closed (preambleLines comment) = (preamble comment).toList := by
  unfold preambleLines preamble
  split <;> simp [closed]

lemma isCode_preambleLines {comment : String} (hinLine : ∀ c ∈ comment.toList, IsInLine c)
    (hmark : comment = "" ∨ comment.toList.head? = some '#') : IsCode 1 (preambleLines comment) := by
  have himports : IsCode 1 ["from __future__ import annotations", "", "from typing import Any"] := by
    have hfuture : IsCode 1 ["from __future__ import annotations"] :=
      .statement (c := 'f') (by decide) rfl (by decide) (by decide)
    have htyping : IsCode 1 ["from typing import Any"] := .statement (c := 'f') (by decide) rfl (by decide) (by decide)
    exact (hfuture.append .emptyLine).append htyping
  unfold preambleLines
  split
  · exact himports
  · next hne =>
    have hfirst := hmark.resolve_left (by simpa using hne)
    exact IsCode.append (.statement hinLine hfirst (by decide) (by decide)) himports

/-- No class is without lines. -/
lemma ne_nil_of_classLines {tree : TypeTree} {lines : List String} (h : classLines m tree = .ok lines) :
    lines ≠ [] := by
  obtain ⟨id, t, inner⟩ := tree
  unfold classLines at h
  obtain ⟨methods, -, h⟩ := bind_eq_ok.1 h
  obtain ⟨nested, -, hlast⟩ := bind_eq_ok.1 h
  rw [← Except.ok.inj hlast]
  exact List.cons_ne_nil _ _

lemma ne_nil_of_classesLines {trees : List TypeTree} {blocks : List (List String)}
    (h : classesLines m trees = .ok blocks) : ∀ block ∈ blocks, block ≠ [] := by
  induction trees generalizing blocks with
  | nil =>
    rw [← Except.ok.inj h]
    exact fun _ hblock => (List.not_mem_nil hblock).elim
  | cons tree rest ih =>
    unfold classesLines at h
    obtain ⟨lines, hlines, h⟩ := bind_eq_ok.1 h
    obtain ⟨others, hothers, hlast⟩ := bind_eq_ok.1 h
    rw [← Except.ok.inj hlast]
    exact List.forall_mem_cons.2 ⟨ne_nil_of_classLines hlines, ih hothers⟩

/-- The classes of a module, each behind two empty lines. -/
lemma closed_flatMap_unlines {blocks : List (List String)} (h : ∀ block ∈ blocks, block ≠ []) (hne : blocks ≠ []) :
    closed (blocks.flatMap fun block => ["", ""] ++ block ++ []) =
      ("\n\n" ++ String.intercalate "\n\n\n" (blocks.map unlines) ++ "\n").toList := by
  induction blocks with
  | nil => exact absurd rfl hne
  | cons block rest ih =>
    obtain ⟨hblock, hrest⟩ := List.forall_mem_cons.1 h
    have hempty : closed ["", ""] = "\n\n".toList := by decide
    rw [List.flatMap_cons, List.append_nil, closed_append, closed_append, hempty, closed_unlines hblock]
    cases rest with
    | nil => simp [closed]
    | cons next rest =>
      rw [ih hrest (List.cons_ne_nil _ _), List.map_cons, List.map_cons, List.map_cons, String.intercalate_cons_cons]
      simp [String.toList_append]

/-- Every module passes its check unless 99 classes lie inside one another in it, if the comment is one of a single line
and the types are regular. -/
theorem checkPython_of_sources {comment : String} {files : Sources} (hinLine : ∀ c ∈ comment.toList, IsInLine c)
    (hmark : comment = "" ∨ comment.toList.head? = some '#') (htypes : ∀ t ∈ m.types, t.Regular)
    (h : sources m comment = .ok files) :
    ∀ f ∈ files, ∃ i < m.namespaces.length,
      (Output.checkPython f.2 = .ok () ↔ ∀ tree ∈ m.trees i, tree.height < Output.mostLevels) := by
  have hnames := isInLine_qualifiedName fun t ht => (htypes t ht).plain
  have hfile {i : Nat} {classes : List (List String)} (hclasses : classesLines m (m.trees i) = .ok classes) :
      Output.checkPython (preamble comment ++ if classes.isEmpty then ""
        else "\n\n" ++ String.intercalate "\n\n\n" (classes.map unlines) ++ "\n") = .ok () ↔
          ∀ tree ∈ m.trees i, tree.height < Output.mostLevels := by
    have hblocks := isCode_classesLines hnames (m.trees i) (fun t ht => htypes t (m.types_treesFrom _ _ ht)) hclasses
    have hempty : IsCode 0 ["", ""] := IsCode.append .emptyLine .emptyLine
    have hcode := (isCode_preambleLines hinLine hmark).append (isCode_flatMap hblocks hempty .empty)
    rw [checkPython_closed hcode.inLine hcode.levels]
    · rw [Nat.max_le]
      split
      · next htrees => simp [htrees]
      · rw [← TypeTree.greatestHeight_lt_iff (by decide)]
        omega
    · rw [closed_append, closed_preambleLines, String.toList_append]
      congr 1
      split
      · next hnone =>
        rw [List.isEmpty_iff.1 hnone]
        rfl
      · next hsome =>
        exact (closed_flatMap_unlines (ne_nil_of_classesLines hclasses) (by simpa using hsome)).symm
  refine foldlM_eq_ok_induction (P := fun files : Sources => ∀ f ∈ files, ∃ i < m.namespaces.length,
      (Output.checkPython f.2 = .ok () ↔ ∀ tree ∈ m.trees i, tree.height < Output.mostLevels)) ?_ ?_ h
  · rintro ⟨name, i⟩ hname files files' hfiles hstep
    obtain ⟨classes, hclasses, hlast⟩ := bind_eq_ok.1 hstep
    rw [← Except.ok.inj hlast]
    intro f hf
    rcases Table.mem_put hf with hf | rfl
    · exact hfiles f hf
    · exact ⟨i, (List.getElem?_eq_some_iff.1 (List.mk_mem_zipIdx_iff_getElem?.1 hname)).1, hfile hclasses⟩
  · exact fun f hf => (List.not_mem_nil hf).elim

end Render.Python

end SchemaAccessors
