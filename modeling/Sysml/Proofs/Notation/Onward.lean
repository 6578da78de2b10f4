import Sysml.Proofs.Notation.Underway

/-!
# Statements with more to come

Where the tokens ahead end with a semicolon or a closing brace, a statement that is read without
a fault is read in the same way whatever follows (`Statement.read_onward`).
-/

set_option autoImplicit false

namespace Sysml.Notation

section Steps

variable {c : Cursor} (d : Cursor)

theorem passName_underway (under : c.Underway) : (passName c).Underway := by
  unfold passName
  split
  · next name => exact under.advance_over name fun _ => Token.ends_name
  · exact under

theorem passName_onward (under : c.Underway) :
    passName (c.followedBy d) = (passName c).followedBy d := by
  rw [passName, passName, followedBy_sees d under.more, followedBy_advance d under.more]
  split <;> rfl

theorem nameHere?_onward (under : c.Underway) : nameHere? (c.followedBy d) = nameHere? c := by
  rw [nameHere?, nameHere?, followedBy_sees d under.more, followedBy_here d under.more]

/-- What stands between the angle brackets, and the place after it. -/
theorem shortName_eq (c : Cursor) :
    shortName c =
      if c.sees (·.isSymbol "<") then
        (((nameHere? c.advance).map (·.text)).getD "",
          if (passName c.advance).sees (·.isSymbol ">") then (passName c.advance).advance
          else (passName c.advance).report (passName c.advance).here.span .shortNameNotClosed)
      else ("", c) := by
  unfold shortName passName nameHere?
  split
  · dsimp only
    split <;> split <;> rfl
  · rfl

theorem shortName_onward (under : c.Underway) :
    shortName (c.followedBy d) = ((shortName c).1, (shortName c).2.followedBy d) ∧
      (shortName c).2.Underway := by
  rw [shortName_eq c, shortName_eq (c.followedBy d), followedBy_sees d under.more]
  split
  · next mark =>
    have inside := under.advance_over mark fun _ angle => Token.ends_mark angle (by decide)
    have after := passName_underway inside
    rw [followedBy_advance d under.more, nameHere?_onward d inside, passName_onward d inside,
      followedBy_sees d after.more, followedBy_advance d after.more, followedBy_here d after.more,
      followedBy_report]
    split
    · next closed =>
      exact ⟨rfl, after.advance_over closed fun _ angle => Token.ends_mark angle (by decide)⟩
    · exact ⟨rfl, after.more, after.complete⟩
  · exact ⟨rfl, under⟩

/-- A body begins before what follows. -/
theorem finish_onward {heading : Option Heading} {ending : HeaderEnd}
    (opens : ending = .opens → ¬ c.atEnd = true) :
    ending.finish heading (c.followedBy d) =
      ((ending.finish heading c).1, (ending.finish heading c).2.followedBy d) := by
  cases ending with
  | closed => rfl
  | opens =>
    have more := opens rfl
    rw [HeaderEnd.finish, followedBy_here d more, followedBy_advance d more]
    rfl

theorem declaration_onward (kind : SymbolKind) (lead : Lead) (needsName : Bool)
    (under : c.Underway) (clean : (declaration kind lead needsName c).2.faults = []) :
    declaration kind lead needsName (c.followedBy d) =
      ((declaration kind lead needsName c).1, (declaration kind lead needsName c).2.followedBy d) := by
  obtain ⟨short, named⟩ := shortName_onward d under
  have into := passName_underway named
  rw [declaration_eq kind lead needsName c] at clean ⊢
  dsimp only at clean ⊢
  have cleanHeader := ((Moves.refl _).reportIf ..).clean ((finish_moves ..).clean clean)
  rw [declaration_eq kind lead needsName (c.followedBy d)]
  dsimp only
  rw [short, nameHere?_onward d named, passName_onward d named,
    header_onward d kind _ into.complete cleanHeader, followedBy_here d under.more,
    followedBy_reportIf, finish_onward]
  intro opens
  have brace := header_opens kind _ opens
  rw [← Cursor.reportIf_sees] at brace
  exact Cursor.more_of_sees brace

theorem ends_colons {token : Token} (colons : token.isSymbol "::" = true) : token.ends = false :=
  Token.ends_mark colons (by decide)

theorem importStars_onward (isNamespace isRecursive : Bool) (under : c.Underway) :
    importStars isNamespace isRecursive (c.followedBy d) =
        ((importStars isNamespace isRecursive c).1, (importStars isNamespace isRecursive c).2.1,
          (importStars isNamespace isRecursive c).2.2.followedBy d) ∧
      (importStars isNamespace isRecursive c).2.2.Underway := by
  fun_induction importStars isNamespace isRecursive c with
  | case1 isNamespace isRecursive c colons star ih =>
    have next := under.advance_over colons fun _ => ends_colons
    have isStar := Cursor.seesNext_advance _ c ▸ star
    have later := next.advance_over isStar fun _ mark => Token.ends_mark mark (by decide)
    rw [importStars, followedBy_sees d under.more, if_pos colons,
      followedBy_seesNext d under.more next.more, if_pos star, followedBy_advance d under.more,
      followedBy_advance d next.more]
    exact ih later
  | case2 isNamespace isRecursive c colons noStar stars ih =>
    have next := under.advance_over colons fun _ => ends_colons
    have isStars := Cursor.seesNext_advance _ c ▸ stars
    have later := next.advance_over isStars fun _ mark => Token.ends_mark mark (by decide)
    have seen := followedBy_seesNext d under.more next.more
    rw [importStars, followedBy_sees d under.more, if_pos colons, seen, if_neg noStar, seen,
      if_pos stars, followedBy_advance d under.more, followedBy_advance d next.more]
    exact ih later
  | case3 isNamespace isRecursive c colons noStar noStars =>
    have next := under.advance_over colons fun _ => ends_colons
    have seen := followedBy_seesNext d under.more next.more
    rw [importStars, followedBy_sees d under.more, if_pos colons, seen, if_neg noStar, seen,
      if_neg noStars]
    exact ⟨rfl, under⟩
  | case4 isNamespace isRecursive c noColons =>
    rw [importStars, followedBy_sees d under.more, if_neg noColons]
    exact ⟨rfl, under⟩

theorem importStart_onward (under : c.Underway) (keyword : c.sees (·.isKeyword "import") = true) :
    importStart (c.followedBy d) = (importStart c).followedBy d ∧ (importStart c).Underway := by
  have next := under.advance_over keyword fun _ => Token.ends_keyword
  unfold importStart
  rw [followedBy_advance d under.more, followedBy_sees d next.more, followedBy_advance d next.more]
  split
  · next all_ => exact ⟨rfl, next.advance_over all_ fun _ => Token.ends_keyword⟩
  · exact ⟨rfl, next⟩

theorem passConditions_onward (under : c.Underway) (clean : (passConditions c).faults = []) :
    passConditions (c.followedBy d) = (passConditions c).followedBy d ∧
      (passConditions c).Underway := by
  unfold passConditions at clean ⊢
  rw [followedBy_sees d under.more]
  split at clean
  · next bracket =>
    rw [if_pos bracket, if_pos bracket]
    exact ⟨skipGroup_onward d under.more clean, skipGroup_underway under (by decide) clean⟩
  · next noBracket =>
    rw [if_neg noBracket, if_neg noBracket]
    exact ⟨rfl, under⟩

theorem importEnd_onward (under : c.Underway) (clean : (importEnd c).faults = []) :
    importEnd (c.followedBy d) = (importEnd c).followedBy d := by
  unfold importEnd at clean ⊢
  rw [followedBy_sees d under.more]
  split at clean
  · next mark => rw [if_pos mark, if_pos mark, followedBy_advance d under.more]
  · cases (skipStatement_moves _).clean clean

theorem importStatement_onward (lead : Lead) (under : c.Underway)
    (keyword : c.sees (·.isKeyword "import") = true)
    (clean : (importStatement lead c).2.faults = []) :
    importStatement lead (c.followedBy d) =
      ((importStatement lead c).1, (importStatement lead c).2.followedBy d) := by
  obtain ⟨start, started⟩ := importStart_onward d under keyword
  rw [importStatement_eq lead c] at clean ⊢
  rw [importStatement_eq lead (c.followedBy d), start, path?_onward d false started,
    followedBy_here d started.more]
  cases found : path? false (importStart c) with
  | none =>
    rw [found] at clean
    cases (skipStatement_moves _).clean clean
  | some read =>
    obtain ⟨path, after⟩ := read
    rw [found] at clean
    dsimp only [Option.map_some] at clean ⊢
    have read := path?_underway started found
    obtain ⟨stars, starred⟩ := importStars_onward d false false read
    obtain ⟨conditions, conditioned⟩ :=
      passConditions_onward d starred ((importEnd_moves _).clean clean)
    rw [stars]
    dsimp only
    rw [conditions, importEnd_onward d conditioned clean, followedBy_last]

theorem passDocName_onward (under : c.Underway) :
    passDocName (c.followedBy d) = (passDocName c).followedBy d ∧ (passDocName c).Underway := by
  unfold passDocName
  rw [followedBy_comment? d under.more, followedBy_sees d under.more, followedBy_advance d under.more]
  split
  · next named =>
    rw [Bool.and_eq_true] at named
    exact ⟨rfl, under.advance_over named.2 fun _ => Token.ends_name⟩
  · exact ⟨rfl, under⟩

theorem passLocale_onward (under : c.Underway) :
    passLocale (c.followedBy d) = (passLocale c).followedBy d ∧ (passLocale c).Underway := by
  unfold passLocale
  rw [followedBy_sees d under.more]
  split
  · next locale =>
    have next := under.advance_over locale fun _ => Token.ends_keyword
    rw [followedBy_advance d under.more, followedBy_sees d next.more, followedBy_advance d next.more]
    split
    · next string =>
      refine ⟨rfl, next.advance_over string fun token isString => ?_⟩
      simp only [beq_iff_eq] at isString
      simp [Token.ends, Token.isSymbol, isString]
    · exact ⟨rfl, next⟩
  · exact ⟨rfl, under⟩

theorem docStatement_onward (under : c.Underway) (keyword : c.sees (·.isKeyword "doc") = true)
    (clean : (docStatement c).2.faults = []) :
    docStatement (c.followedBy d) = ((docStatement c).1, (docStatement c).2.followedBy d) := by
  have next := under.advance_over keyword fun _ => Token.ends_keyword
  obtain ⟨name, named⟩ := passDocName_onward d next
  obtain ⟨locale, located⟩ := passLocale_onward d named
  rw [docStatement_eq c] at clean ⊢
  rw [docStatement_eq (c.followedBy d)]
  dsimp only at clean ⊢
  rw [followedBy_advance d under.more, name, locale, followedBy_comment? d located.more]
  cases body : (passLocale (passDocName c.advance)).comment? with
  | none =>
    rw [body] at clean
    cases clean
  | some comment =>
    dsimp only
    rw [followedBy_passComment d located.more]

theorem skipRemark_onward (c : Cursor) (under : c.Underway) :
    skipRemark (c.followedBy d) = (skipRemark c).followedBy d := by
  rw [skipRemark_eq c, skipRemark_eq (c.followedBy d), followedBy_comment? d under.more,
    if_neg under.more, if_neg (followedBy_more d under.more), followedBy_sees d under.more,
    followedBy_sees d under.more, followedBy_drop d under.more, followedBy_passComment d under.more]
  split
  · rfl
  · split
    · rfl
    · next noBrace =>
      split
      · rfl
      · next noMark =>
        have open_ : c.here.ends = false := by
          rw [Cursor.sees_here under.more] at noBrace noMark
          simp only [Bool.or_eq_true, not_or] at noBrace
          simp [Token.ends, noBrace.2, noMark]
        have next := under.advance open_
        have shorter := Cursor.advance_length_of_not_atEnd under.more
        exact skipRemark_onward c.drop ⟨next.more, next.complete⟩
termination_by c.length

theorem familyHead?_onward (under : c.Underway) (word : c.sees (·.kind == .word) = true) :
    familyHead? (c.followedBy d) =
        (familyHead? c).map (fun found => (found.1, found.2.followedBy d)) ∧
      ∀ found ∈ familyHead? c, found.2.Underway := by
  have next := under.advance_over word fun _ => Token.ends_word
  unfold familyHead?
  rw [followedBy_here d under.more, followedBy_seesNext d under.more next.more,
    followedBy_advance d under.more, followedBy_advance d next.more]
  cases caseKeywords.lookup c.here.text with
  | none =>
    dsimp only
    cases familyKeywords.lookup c.here.text with
    | none => exact ⟨rfl, fun _ none_ => by cases none_⟩
    | some family => exact ⟨rfl, fun found same => by cases same; exact next⟩
  | some family =>
    dsimp only
    split
    · next isCase =>
      rw [Cursor.seesNext_advance] at isCase
      refine ⟨rfl, fun found same => ?_⟩
      cases same
      exact next.advance_over isCase fun _ => Token.ends_keyword
    · cases familyKeywords.lookup c.here.text with
      | none => exact ⟨rfl, fun _ none_ => by cases none_⟩
      | some family => exact ⟨rfl, fun found same => by cases same; exact next⟩

theorem sees_keyword_of_word {text : String} (more : ¬ c.atEnd = true)
    (word : c.sees (·.kind == .word) = true) (same : c.here.text = text) :
    c.sees (·.isKeyword text) = true := by
  rw [Cursor.sees_here more] at word ⊢
  rw [Token.isKeyword, word, same, beq_self_eq_true, Bool.and_self]

theorem keywordStatement?_onward (lead : Lead) (under : c.Underway)
    (word : c.sees (·.kind == .word) = true)
    (clean : ∀ read ∈ keywordStatement? lead c, read.2.faults = []) :
    keywordStatement? lead (c.followedBy d) =
      (keywordStatement? lead c).map fun read => (read.1, read.2.followedBy d) := by
  have next := under.advance_over word fun _ => Token.ends_word
  obtain ⟨family, headed⟩ := familyHead?_onward d under word
  unfold keywordStatement? at clean ⊢
  dsimp only at clean ⊢
  rw [followedBy_here d under.more, followedBy_advance d under.more, family]
  split at clean
  · next isImport =>
    have keyword := sees_keyword_of_word under.more word isImport
    rw [if_pos isImport, if_pos isImport,
      importStatement_onward d lead under keyword (clean _ rfl)]
    rfl
  · next noImport =>
    rw [if_neg noImport, if_neg noImport]
    split at clean
    · next isDoc =>
      have keyword := sees_keyword_of_word under.more word isDoc
      rw [if_pos isDoc, if_pos isDoc, docStatement_onward d under keyword (clean _ rfl)]
      rfl
    · next noDoc =>
      rw [if_neg noDoc, if_neg noDoc]
      split at clean
      · next isRemark =>
        rw [if_pos isRemark, if_pos isRemark, skipRemark_onward d _ next]
        rfl
      · next noRemark =>
        rw [if_neg noRemark, if_neg noRemark]
        split at clean
        · next isPackage =>
          rw [if_pos isPackage, if_pos isPackage,
            declaration_onward d _ lead true next (clean _ rfl)]
          rfl
        · next noPackage =>
          rw [if_neg noPackage, if_neg noPackage]
          split at clean
          · next isNamespace =>
            rw [if_pos isNamespace, if_pos isNamespace,
              declaration_onward d _ lead true next (clean _ rfl)]
            rfl
          · next noNamespace =>
            rw [if_neg noNamespace, if_neg noNamespace]
            cases head : familyHead? c with
            | some found =>
              obtain ⟨family, after⟩ := found
              have open_ := headed _ head
              rw [head] at clean
              dsimp only [Option.map_some] at clean ⊢
              rw [followedBy_sees d open_.more, followedBy_advance d open_.more]
              split at clean
              · next isDef =>
                have inside := open_.advance_over isDef fun _ => Token.ends_keyword
                rw [if_pos isDef, if_pos isDef,
                  declaration_onward d _ lead true inside (clean _ rfl)]
                rfl
              · next noDef =>
                rw [if_neg noDef, if_neg noDef,
                  declaration_onward d _ lead false open_ (clean _ rfl)]
                rfl
            | none =>
              rw [head] at clean
              dsimp only [Option.map_none] at clean ⊢
              cases kernel : kernelKeywords.lookup c.here.text with
              | none => rfl
              | some kind =>
                rw [kernel] at clean
                have told := clean _ rfl
                dsimp only [Option.map_some] at told ⊢
                rw [followedBy_sees d next.more, followedBy_advance d next.more]
                split at told
                · next isAssociation =>
                  have struct := ((Bool.and_eq_true ..).mp isAssociation).2
                  rw [if_pos isAssociation, if_pos isAssociation, declaration_onward d _ lead _
                    (next.advance_over struct fun _ => Token.ends_keyword) told]
                · next noAssociation =>
                  rw [if_neg noAssociation, if_neg noAssociation,
                    declaration_onward d _ lead _ next told]

theorem plainStatement_onward (lead : Lead) (under : c.Underway)
    (clean : (plainStatement lead c).2.faults = []) :
    plainStatement lead (c.followedBy d) =
      ((plainStatement lead c).1, (plainStatement lead c).2.followedBy d) := by
  unfold plainStatement at clean ⊢
  have looks : ((c.followedBy d).sees Token.isName && (!lead.direction.isEmpty ||
        (c.followedBy d).seesNext fun t => (relationship? .plainUsage t false).isSome)) =
      (c.sees Token.isName && (!lead.direction.isEmpty ||
        c.seesNext fun t => (relationship? .plainUsage t false).isSome)) := by
    rw [followedBy_sees d under.more]
    cases name : c.sees Token.isName with
    | false => rfl
    | true =>
      have next := under.advance_over name fun _ => Token.ends_name
      rw [followedBy_seesNext d under.more next.more]
  rw [looks, followedBy_sees d under.more]
  split at clean
  · next isRef =>
    rw [if_pos isRef, if_pos isRef]
    exact declaration_onward d _ lead _ under clean
  · next noRef =>
    rw [if_neg noRef, if_neg noRef]
    split at clean
    · next redefines =>
      rw [if_pos redefines, if_pos redefines]
      exact declaration_onward d _ lead _ under clean
    · next noRedefinition =>
      rw [if_neg noRedefinition, if_neg noRedefinition]
      split at clean
      · next named =>
        rw [if_pos named, if_pos named]
        exact declaration_onward d _ lead _ under clean
      · next skips =>
        rw [if_neg skips, if_neg skips, skipStatement_onward d under clean]

theorem statementFrom_onward (lead : Lead) (under : c.Underway)
    (clean : (statementFrom lead c).2.faults = []) :
    statementFrom lead (c.followedBy d) =
      ((statementFrom lead c).1, (statementFrom lead c).2.followedBy d) := by
  have seen := followedBy_sees d under.more
  unfold statementFrom at clean ⊢
  rw [Bool.eq_false_iff.mpr under.more, Bool.false_or] at clean
  rw [seen, seen, seen, followedBy_advance d under.more, Bool.eq_false_iff.mpr under.more,
    Bool.eq_false_iff.mpr (followedBy_more d under.more), Bool.false_or]
  split at clean
  · next brace => rw [if_pos brace, if_pos brace]
  · next noBrace =>
    rw [if_neg noBrace, if_neg noBrace]
    split at clean
    · next mark => rw [if_pos mark, if_pos mark]
    · next noMark =>
      rw [if_neg noMark, if_neg noMark]
      split at clean
      · next word =>
        rw [if_pos word, if_pos word]
        cases found : keywordStatement? lead c with
        | none =>
          rw [found] at clean
          have keyword := keywordStatement?_onward d lead under word (by simp [found])
          rw [keyword, found, plainStatement_onward d lead under clean]
          rfl
        | some read =>
          rw [found] at clean
          have keyword := keywordStatement?_onward d lead under word (by simpa [found] using clean)
          rw [keyword, found]
          rfl
      · next noWord =>
        rw [if_neg noWord, if_neg noWord, plainStatement_onward d lead under clean]

end Steps

variable (d : Cursor)

theorem Statement.read_onward {c : Cursor} (under : c.Underway)
    (clean : (Statement.read c).2.faults = []) :
    Statement.read (c.followedBy d) =
      ((Statement.read c).1, (Statement.read c).2.followedBy d) := by
  obtain ⟨led, next⟩ := leadFrom_onward d {} c under
  rw [Statement.read_eq] at clean ⊢
  rw [Statement.read_eq, led]
  exact statementFrom_onward d _ next clean

end Sysml.Notation
