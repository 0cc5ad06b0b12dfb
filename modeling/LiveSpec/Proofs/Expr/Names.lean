import LiveSpec.Proofs.Evaluation.Mentioned
import LiveSpec.Proofs.Expr.Derivation

/-!
# The names in a text

An expression that goes by a name, a variable, a property, a call or a named part, has a token for
it: `#` and the name, or the name alone. That token is among those of any text that the expression
is read from (`Derives.token_mem`), and the scanner makes it of characters of names only
(`Token.spelled_of_scanFrom`).

A text is scanned as one such token exactly if it is the token but for blanks at either end
(`Token.scan_eq_name`). So what stands alone in a text can be told from the text without its blanks:
a variable (`Statement.read_eq_variable`), a property (`Statement.trimmed_of_read_property`), and no
expression at all if it begins with a bracket (`Statement.read_ne_of_bracket`).
-/

namespace LiveSpec

namespace Text

variable {cs before text after : List Char}

/-- Blanks at either end of a text without blanks are what is trimmed off it. -/
theorem trim_padded (hbefore : ∀ c ∈ before, isBlank c = true)
    (htext : ∀ c ∈ text, isBlank c = false) (hafter : ∀ c ∈ after, isBlank c = true) :
    trim (before ++ text ++ after) = text := by
  have hstop : ∀ {cs : List Char}, (∀ c ∈ cs, isBlank c = false) → cs.dropWhile isBlank = cs := by
    intro cs hcs
    cases cs with
    | nil => rfl
    | cons c cs => exact List.dropWhile_cons_of_neg (by simp [hcs c])
  unfold trim trimLeft trimRight
  rw [List.append_assoc, List.dropWhile_append_of_pos hbefore]
  cases text with
  | nil => simp [List.dropWhile_eq_nil_iff.mpr hafter]
  | cons c text =>
    rw [List.cons_append, List.dropWhile_cons_of_neg (by simp [htext c]), ← List.cons_append,
      List.reverse_append,
      List.dropWhile_append_of_pos (fun c hc => hafter c (List.mem_reverse.mp hc)),
      hstop (fun c hc => htext c (List.mem_reverse.mp hc)), List.reverse_reverse]

/-- A text is what is left of it when it is trimmed, with blanks at either end. -/
theorem exists_padded (cs : List Char) :
    ∃ before after : List Char, (∀ c ∈ before, isBlank c = true) ∧
    (∀ c ∈ after, isBlank c = true) ∧ cs = before ++ trim cs ++ after := by
  have hsplit : trimRight (trimLeft cs) ++ ((trimLeft cs).reverse.takeWhile isBlank).reverse =
      trimLeft cs := by
    rw [trimRight, ← List.reverse_append, List.takeWhile_append_dropWhile, List.reverse_reverse]
  refine ⟨cs.takeWhile isBlank, ((trimLeft cs).reverse.takeWhile isBlank).reverse, fun c hc => ?_,
    fun c hc => ?_, ?_⟩
  · exact List.mem_takeWhile_imp hc
  · exact List.mem_takeWhile_imp (List.mem_reverse.mp hc)
  · rw [List.append_assoc, trim, hsplit, trimLeft, List.takeWhile_append_dropWhile]

end Text

/-! ## Names among tokens -/

/-- The token that an expression is named by, if it goes by a name. -/
def Expr.nameToken? : Expr → Option Token
  | .variable name => some (.variable name)
  | .property name | .call name _ | .field _ name => some (.ident name)
  | .literal _ | .index _ _ => none

/-- The expressions within a phrase. -/
def Phrase.nodes : Phrase → List Expr
  | .statement st => st.body.postorder
  | .expr e | .primary e => e.postorder
  | .args es => Expr.postorderAll es

/-- Each expression within a phrase that goes by a name has its token there. -/
theorem Derives.token_mem {p : Phrase} {ts : List Token} {e : Expr} {t : Token} (h : Derives p ts)
    (hmem : e ∈ p.nodes) (ht : e.nameToken? = some t) : t ∈ ts := by
  induction h with
  | assign _ ih => exact List.mem_cons_of_mem _ (List.mem_cons_of_mem _ (ih hmem))
  | eval _ ih | alone _ ih => exact ih hmem
  | field _ ih =>
    rcases List.mem_append.mp hmem with htarget | hself
    · exact List.mem_append_left _ (ih htarget)
    · obtain rfl := List.mem_singleton.mp hself
      obtain rfl := Option.some.inj ht
      simp
  | index _ _ ih ihkey =>
    rcases List.mem_append.mp hmem with hparts | hself
    · rcases List.mem_append.mp hparts with htarget | hkey
      · exact List.mem_append_left _ (List.mem_append_left _ (ih htarget))
      · exact List.mem_append_left _ (List.mem_append_right _ (List.mem_cons_of_mem _ (ihkey hkey)))
    · obtain rfl := List.mem_singleton.mp hself
      cases ht
  | reference | property =>
    obtain rfl := List.mem_singleton.mp hmem
    obtain rfl := Option.some.inj ht
    exact List.mem_singleton_self _
  | literal =>
    obtain rfl := List.mem_singleton.mp hmem
    cases ht
  | call _ _ ih =>
    rcases List.mem_append.mp hmem with hargs | hself
    · exact List.mem_append_left _ (List.mem_cons_of_mem _ (List.mem_cons_of_mem _ (ih hargs)))
    · obtain rfl := List.mem_singleton.mp hself
      obtain rfl := Option.some.inj ht
      exact List.mem_cons_self
  | noArgs => cases hmem
  | lastArg _ ih =>
    simp only [Phrase.nodes, Expr.postorderAll, List.append_nil] at hmem
    exact ih hmem
  | nextArg _ _ ih ihs =>
    rcases List.mem_append.mp hmem with hfirst | hothers
    · exact List.mem_append_left _ (ih hfirst)
    · exact List.mem_append_right _ (List.mem_cons_of_mem _ (ihs hothers))

/-! ## Scanning a name -/

namespace Token

open Text (isBlank)

variable {t : Token} {position : Nat} {c : Char} {cs before lexeme : List Char} {name : String}
  {ts : List Token}

/-- Says whether a token is a name, with or without `#`. -/
def isName : Token → Bool
  | .variable _ | .ident _ => true
  | _ => false

theorem isName_of_isMark (h : t.isMark = true) : t.isName = false := by
  cases t <;> first | rfl | cases h

theorem isName_of_nameToken? {e : Expr} (h : e.nameToken? = some t) : t.isName = true := by
  cases e with
  | literal | index => cases h
  | «variable» | property | call | field =>
    obtain rfl := Option.some.inj h
    rfl

theorem isMark_of_ofMark? (h : ofMark? c = some t) : t.isMark = true := by
  have hall : ∀ d ∈ markChars, (ofMark? d).any isMark = true := forall_markChars.mpr (by decide)
  have hmark := hall c (mem_markChars h)
  rwa [h] at hmark

theorem Spelled.variable_iff : (Token.variable name).Spelled lexeme ↔
    IsRun name ∧ lexeme = '#' :: name.toList := by
  constructor
  · intro h
    cases h with
    | reference h => exact ⟨h, rfl⟩
    | mark h => cases isMark_of_ofMark? h
  · rintro ⟨h, rfl⟩
    exact .reference h

theorem Spelled.ident_iff : (Token.ident name).Spelled lexeme ↔
    IsIdent name ∧ lexeme = name.toList := by
  constructor
  · intro h
    cases h with
    | ident h => exact ⟨h, rfl⟩
    | mark h => cases isMark_of_ofMark? h
  · rintro ⟨h, rfl⟩
    exact .ident h

/-- A name is written in one way, without blanks. -/
theorem Spelled.name_unique {lexeme' : List Char} (h : t.Spelled lexeme) (h' : t.Spelled lexeme')
    (ht : t.isName = true) :
    lexeme = lexeme' := by
  cases t with
  | «variable» name => rw [(variable_iff.mp h).2, (variable_iff.mp h').2]
  | ident name => rw [(ident_iff.mp h).2, (ident_iff.mp h').2]
  | _ => cases ht

theorem isBlank_of_inName (h : inName c = true) : isBlank c = false := by
  by_contra hblank
  rw [inName_of_isBlank (by simpa using hblank)] at h
  cases h

theorem Spelled.isBlank_of_name (h : t.Spelled lexeme) (ht : t.isName = true) (hc : c ∈ lexeme) :
    isBlank c = false := by
  cases t with
  | «variable» name =>
    obtain ⟨hrun, rfl⟩ := variable_iff.mp h
    rcases List.mem_cons.mp hc with rfl | hc
    · rfl
    · exact isBlank_of_inName (hrun.inName hc)
  | ident name =>
    obtain ⟨hident, rfl⟩ := ident_iff.mp h
    exact isBlank_of_inName (hident.inName hc)
  | _ => cases ht

theorem inName_of_beginsName (h : beginsName c = true) : inName c = true := by
  unfold beginsName at h
  unfold inName Text.isLetterOrNumber
  rcases Bool.or_eq_true _ _ |>.mp h with hletter | hline
  · simp [hletter]
  · simp [hline]

/-- A name that is scanned stands there as it is written. -/
theorem spelled_of_next {rest : { rest : List Char // rest.length ≤ cs.length }}
    (h : next position c cs = .ok (t, rest)) (ht : t.isName = true) :
    ∃ lexeme, t.Spelled lexeme ∧ c :: cs = lexeme ++ rest.1 := by
  unfold next at h
  dsimp only at h
  split at h
  · next hmark =>
    cases h
    rw [isName_of_isMark (isMark_of_ofMark? hmark)] at ht
    cases ht
  split at h
  · next hhash =>
    split at h
    · cases h
    · next hsome =>
      cases h
      subst hhash
      refine ⟨_, .reference ⟨by simpa using hsome, fun hc => ?_⟩, ?_⟩
      · rw [String.toList_ofList] at hc
        exact List.mem_takeWhile_imp hc
      · rw [String.toList_ofList, List.cons_append, List.takeWhile_append_dropWhile]
  split at h
  · split at h
    · cases h
      cases ht
    · cases h
  split at h
  · split at h
    · next hnumber =>
      cases h
      unfold ofNumber at hnumber
      split at hnumber
      · split at hnumber
        · split at hnumber <;> cases hnumber
          cases ht
        · cases hnumber
      · split at hnumber <;> cases hnumber
        cases ht
    · cases h
  split at h
  · next hbegins =>
    cases h
    refine ⟨_, .ident ⟨⟨by simp, fun {d} hd => ?_⟩, fun {d} hd => ?_⟩, ?_⟩
    · rw [String.toList_ofList] at hd
      rcases List.mem_cons.mp hd with rfl | hd
      · exact inName_of_beginsName hbegins
      · exact List.mem_takeWhile_imp hd
    · rw [String.toList_ofList] at hd
      obtain rfl := Option.some.inj hd
      exact hbegins
    · rw [String.toList_ofList, List.cons_append, List.takeWhile_append_dropWhile]
  · cases h

/-- **A name that is scanned is made of the characters of names.** -/
theorem spelled_of_scanFrom (h : scanFrom position cs = .ok ts) (hmem : t ∈ ts)
    (ht : t.isName = true) :
    ∃ lexeme, t.Spelled lexeme := by
  fun_induction scanFrom position cs generalizing ts with
  | case1 =>
    cases h
    cases hmem
  | case2 position c cs hblank ih => exact ih h hmem
  | case3 => cases h
  | case4 => cases h
  | case5 position c cs hblank t' rest hlength hnext ts' hts ih =>
    cases h
    rcases List.mem_cons.mp hmem with rfl | hmem
    · obtain ⟨lexeme, hlexeme, -⟩ := spelled_of_next hnext ht
      exact ⟨lexeme, hlexeme⟩
    · exact ih hts hmem

/-! ## A text of one name -/

theorem isBlank_of_scanFrom_nil (h : scanFrom position cs = .ok []) (hc : c ∈ cs) :
    isBlank c = true := by
  fun_induction scanFrom position cs with
  | case1 => cases hc
  | case2 position d cs hblank ih =>
    rcases List.mem_cons.mp hc with rfl | hc
    · exact hblank
    · exact ih h hc
  | case3 | case4 | case5 => cases h

theorem padded_of_scanFrom (h : scanFrom position cs = .ok [t]) (ht : t.isName = true) :
    ∃ before lexeme after, (∀ c ∈ before, isBlank c = true) ∧ t.Spelled lexeme ∧
      (∀ c ∈ after, isBlank c = true) ∧
      cs = before ++ lexeme ++ after := by
  fun_induction scanFrom position cs with
  | case1 | case3 | case4 => cases h
  | case2 position c cs hblank ih =>
    obtain ⟨before, lexeme, after, hbefore, hlexeme, hafter, rfl⟩ := ih h
    exact ⟨c :: before, lexeme, after, List.forall_mem_cons.mpr ⟨hblank, hbefore⟩, hlexeme,
      hafter, rfl⟩
  | case5 position c cs hblank t' rest hlength hnext ts' hts ih =>
    cases h
    obtain ⟨lexeme, hlexeme, hcs⟩ := spelled_of_next hnext ht
    exact ⟨[], lexeme, rest, nofun, hlexeme, fun _ => isBlank_of_scanFrom_nil hts, hcs⟩

theorem spaced_of_blanks (h : ∀ c ∈ cs, isBlank c = true) : Spaced [] cs := by
  induction cs with
  | nil => exact .nil
  | cons c cs ih =>
    exact .blank (h c List.mem_cons_self) (ih fun d hd => h d (List.mem_cons_of_mem c hd))

theorem spaced_after_blanks (hbefore : ∀ c ∈ before, isBlank c = true) (h : Spaced ts cs) :
    Spaced ts (before ++ cs) := by
  induction before with
  | nil => exact h
  | cons c before ih =>
    exact .blank (hbefore c List.mem_cons_self)
      (ih fun d hd => hbefore d (List.mem_cons_of_mem c hd))

/-- **A text is one name exactly if it is that name but for blanks at either end.** -/
theorem scan_eq_name {text : String} (h : t.Spelled lexeme) (ht : t.isName = true) :
    scan text = .ok [t] ↔ Text.trim text.toList = lexeme := by
  constructor
  · intro hscan
    obtain ⟨before, lexeme', after, hbefore, hlexeme', hafter, htext⟩ := padded_of_scanFrom hscan ht
    obtain rfl := h.name_unique hlexeme' ht
    rw [htext, Text.trim_padded hbefore (fun c hc => h.isBlank_of_name ht hc) hafter]
  · rintro rfl
    obtain ⟨before, after, hbefore, hafter, htext⟩ := Text.exists_padded text.toList
    have hspaced : Spaced [t] text.toList := by
      rw [htext, List.append_assoc]
      exact spaced_after_blanks hbefore (.token h (spaced_of_blanks hafter))
    exact hspaced.scanFrom (List.isChain_singleton _) 0

/-- A mark that a text begins with, blanks aside, is its first token. -/
theorem head?_of_scanFrom (hbefore : ∀ c ∈ before, isBlank c = true) (hmark : ofMark? c = some t)
    (h : scanFrom position (before ++ c :: cs) = .ok ts) : ts.head? = some t := by
  induction before generalizing position with
  | nil =>
    have hblank : isBlank c = false :=
      forall_markChars (p := fun c => isBlank c = false).mpr (by decide) c (mem_markChars hmark)
    have hnext : next position c cs = .ok (t, ⟨cs, Nat.le_refl _⟩) := by
      unfold next
      rw [hmark]
    rw [List.nil_append, scanFrom, if_neg (by simp [hblank]), hnext] at h
    dsimp only at h
    split at h
    · cases h
    · cases h
      rfl
  | cons b before ih =>
    rw [List.cons_append, scanFrom, if_pos (hbefore b List.mem_cons_self)] at h
    exact ih (fun d hd => hbefore d (List.mem_cons_of_mem b hd)) h

end Token

/-! ## What is read -/

namespace Statement

variable {text name : String} {st : Statement} {e : Expr} {t : Token}

/-- What an expression goes by in a text that is read was written there. -/
theorem spelled_of_read (h : read text = .ok st) (hmem : e ∈ st.body.postorder)
    (ht : e.nameToken? = some t) :
    ∃ lexeme, t.Spelled lexeme := by
  obtain ⟨ts, hscan, hderives⟩ := scan_of_read h
  exact Token.spelled_of_scanFrom hscan (hderives.token_mem hmem ht) (Token.isName_of_nameToken? ht)

theorem toList_trimmed (text : String) : (Text.trimmed text).toList = Text.trim text.toList :=
  String.toList_ofList

/-- A text is read as a variable exactly if it is `#` and its name, blanks aside. -/
theorem read_eq_variable :
    read text = .ok (.eval (.variable name)) ↔ Token.IsRun name ∧
      Text.trimmed text = "#" ++ name := by
  have hlexeme : Text.trimmed text = "#" ++ name ↔ Text.trim text.toList = '#' :: name.toList := by
    rw [← String.toList_inj, toList_trimmed, String.toList_append]
    rfl
  constructor
  · intro h
    obtain ⟨hscan, -⟩ := (read_sound text).1 _ h
    have hmem : Expr.variable name ∈ (Statement.eval (.variable name)).body.postorder :=
      List.mem_singleton_self _
    obtain ⟨lexeme, hspelled⟩ := spelled_of_read h hmem rfl
    obtain ⟨hrun, rfl⟩ := Token.Spelled.variable_iff.mp hspelled
    exact ⟨hrun, hlexeme.mpr ((Token.scan_eq_name hspelled rfl).mp hscan)⟩
  · rintro ⟨hrun, htrim⟩
    have hscan := (Token.scan_eq_name (.reference hrun) rfl).mpr (hlexeme.mp htrim)
    rw [read, hscan]
    exact ofTokens_tokens (.eval (.reference hrun))

/-- A text that is a name, blanks aside, is read as that name: a property, or one of the words for
values. -/
theorem read_name (hname : Token.IsIdent name) (htrim : Text.trimmed text = name) :
    read text = .ok (.eval (.property name)) ∨ ∃ v, read text = .ok (.eval (.literal v)) := by
  have hscan : Token.scan text = .ok [.ident name] :=
    (Token.scan_eq_name (.ident hname) rfl).mpr (by rw [← toList_trimmed, htrim])
  rw [read, hscan]
  cases hkeyword : Token.isKeyword name with
  | false => exact .inl (ofTokens_tokens (.eval (.property hname hkeyword)))
  | true =>
    right
    simp only [Token.isKeyword, Bool.or_eq_true, decide_eq_true_eq] at hkeyword
    rcases hkeyword with (rfl | rfl) | rfl
    · exact ⟨.bool true, rfl⟩
    · exact ⟨.bool false, rfl⟩
    · exact ⟨.null, rfl⟩

/-- The name of a property that is all of a text is the text without its blanks. -/
theorem trimmed_of_read_property (h : read text = .ok (.eval (.property name))) :
    Text.trimmed text = name := by
  obtain ⟨hscan, -⟩ := (read_sound text).1 _ h
  have hmem : Expr.property name ∈ (Statement.eval (.property name)).body.postorder :=
    List.mem_singleton_self _
  obtain ⟨lexeme, hspelled⟩ := spelled_of_read h hmem rfl
  obtain ⟨-, rfl⟩ := Token.Spelled.ident_iff.mp hspelled
  rw [← String.toList_inj, toList_trimmed]
  exact (Token.scan_eq_name hspelled rfl).mp hscan

/-- No text that begins with a bracket, blanks aside, is read. -/
theorem read_ne_of_bracket {rest : List Char} (htrim : (Text.trimmed text).toList = '[' :: rest) :
    read text ≠ .ok st := by
  intro h
  obtain ⟨ts, hscan, hderives⟩ := scan_of_read h
  obtain ⟨before, after, hbefore, -, htext⟩ := Text.exists_padded text.toList
  rw [← toList_trimmed, htrim, List.append_assoc, List.cons_append] at htext
  rw [Token.scan, htext] at hscan
  have hhead : ts.head? = some .leftBracket := Token.head?_of_scanFrom hbefore rfl hscan
  obtain ⟨t, ht, hbegins⟩ := hderives.wellPlaced.begins
  obtain rfl := Option.mem_unique ht hhead
  cases hbegins

end Statement
end LiveSpec
