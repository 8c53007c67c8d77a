import LoxKit.Proofs.Grammar.SimpleStatement
import LoxKit.Proofs.Grammar.StatementLeads

/-!
# Errors stay local to their statement

A token list is read part by part.  An `Item` is a declaration that is read with nothing wrong, or
a simple statement, which may be malformed in whatever way.  Reading an item takes just its own
tokens, and what it yields and reports is told by these alone (`ReadsAs`).  So if items stand
behind one another, and any tokens behind them, the program is what the parts are read as, and so
are the diagnostics (`Program.ofTokens_items`).  The one thing that reaches from a part into the
one before it is an `else`.
-/
namespace LoxKit
namespace Grammar

variable {room : Nat} {ts : List Token} {s : Option Stmt} {found : List Diagnostic}

/-! ## Items -/

/-- **A simple statement**: it ends in the only semicolon it holds, and has no brace, no `for`, and
no word that begins a statement behind its first token. -/
def IsSimple (ts : List Token) : Prop :=
  ∃ us semicolon, ts = us ++ [semicolon] ∧ semicolon.kind = .semicolon ∧
    (∀ t ∈ us, t.kind ∉ [TokenKind.endOfInput, .semicolon, .leftBrace, .rightBrace]) ∧
    (∀ t ∈ us.tail, t.kind.startsStatement = false) ∧ ∀ t ∈ us.head?, t.kind ≠ .forWord

/-- **An item**: a declaration that alone is read with nothing wrong, or a simple statement. -/
def Item (room : Nat) (ts : List Token) : Prop :=
  ((∀ t ∈ ts, t.isEnd = false) ∧
    ∃ s z, z.isEnd ∧ Program.ofTokens room (ts ++ [z]) = ⟨[s], []⟩) ∨ IsSimple ts

/-- **A part is read as** a statement, if any, with what is found wrong in it, whatever is behind
it, unless that is an `else`. -/
def ReadsAs (room : Nat) (ts : List Token) (s : Option Stmt) (found : List Diagnostic) : Prop :=
  ∀ w rest ds, ts.length ≤ w → (ahead rest (.endAt 0)).kind ≠ .elseWord →
    topLevel w room { rest := ts ++ rest, diagnostics := ds } =
      .ok s { rest := rest, diagnostics := ds ++ found }

/-- A declaration alone is one passage, which is read whatever is behind it. -/
theorem leads_of_alone {s : Stmt} {z : Token} (hts : ∀ t ∈ ts, t.isEnd = false) (hz : z.isEnd)
    (h : Program.ofTokens room (ts ++ [z]) = ⟨[s], []⟩) {w : Nat} (hw : ts.length ≤ w) :
    ts ≠ [] ∧
      Leads 0 (declaration w room) ts (pure (some s)) fun next => next.kind ≠ .elseWord := by
  have hread := ((Program.ofTokens_iff hz hts).mp h).leads hw
  cases hread with
  | @cons _ _ ts us hs hne hrest =>
    cases hrest
    rw [List.append_nil]
    exact ⟨hne, hs.1⟩

/-- An item begins with a token that does not close a list. -/
theorem Item.head (h : Item room ts) : ∃ t us, ts = t :: us ∧ t.isEnd = false := by
  rcases h with ⟨hts, s, z, hz, hread⟩ | ⟨us, semicolon, rfl, hkind, hus, -⟩
  · have hne := (leads_of_alone hts hz hread (Nat.le_refl _)).1
    obtain ⟨t, us, rfl⟩ := List.exists_cons_of_ne_nil hne
    exact ⟨t, us, rfl, hts t List.mem_cons_self⟩
  · cases us with
    | nil =>
      refine ⟨semicolon, [], rfl, ?_⟩
      rw [Token.isEnd, hkind]
      rfl
    | cons t us =>
      refine ⟨t, us ++ [semicolon], rfl, beq_eq_false_iff_ne.mpr fun hend => ?_⟩
      exact hus t List.mem_cons_self (by rw [hend]; decide)

theorem readsAs_of_alone {s : Stmt} {z : Token} (hts : ∀ t ∈ ts, t.isEnd = false) (hz : z.isEnd)
    (h : Program.ofTokens room (ts ++ [z]) = ⟨[s], []⟩) : ReadsAs room ts (some s) [] := by
  intro w rest ds hw hnext
  rw [List.append_nil]
  exact (leads_of_alone hts hz h hw).2.orGiveUp rest ds hnext

/-- The surroundings of the tokens in front of the semicolon of a simple statement. -/
def Sides.simple {semicolon : Token} (h : semicolon.kind = .semicolon)
    (beyond beyond' : List Token) (before before' : List Diagnostic) : Sides where
  stop := semicolon
  inside := (· ∉ [TokenKind.endOfInput, .semicolon, .leftBrace, .rightBrace, .forWord])
  not_end := by decide
  not_stop := by rw [h]; decide
  stops := .inr h
  beyond := beyond
  beyond' := beyond'
  before := before
  before' := before'

theorem IsSimple.readsAs (h : IsSimple ts) : ∃ s found, ReadsAs room ts s found := by
  obtain ⟨us, semicolon, rfl, hkind, hus, hwords, hfor⟩ := h
  have hnone : ∀ t ∈ us, t.kind ≠ .forWord := by
    intro t ht hword
    cases us with
    | nil => cases ht
    | cons u us =>
      rcases List.mem_cons.mp ht with rfl | ht
      · exact hfor t rfl hword
      · have hnot := hwords t ht
        rw [hword] at hnot
        cases hnot
  have hinside : ∀ t ∈ us,
      t.kind ∉ [TokenKind.endOfInput, .semicolon, .leftBrace, .rightBrace, .forWord] := by
    intro t ht hmem
    rcases List.mem_append.mp (show t.kind ∈ [TokenKind.endOfInput, .semicolon, .leftBrace,
      .rightBrace] ++ [.forWord] from hmem) with hmem | hword
    · exact hus t ht hmem
    · exact hnone t ht (List.mem_singleton.mp hword)
  -- the run in front of a closing token is beside every other
  have hbeside (w : Nat) (rest : List Token) (ds : List Diagnostic) (hw : us.length < w)
      (hnext : (ahead rest (.endAt 0)).kind ≠ .elseWord) :=
    Sides.Simple.topLevel (S := .simple hkind [.endAt 0] rest [] ds)
      ⟨hkind, fun hnot => hnot (by decide), fun hnot => hnot (by decide), nofun, hnext⟩
      (Nat.lt_succ_self us.length) hw room 0 [] (Nat.le_refl _) hinside hwords
  obtain ⟨s, found, hrun, -⟩ := hbeside (us.length + 1) [.endAt 0] [] (Nat.lt_succ_self _) nofun
  refine ⟨s, found, fun w rest ds hw hnext => ?_⟩
  have hlen : us.length < w := by
    rw [List.length_append] at hw
    exact hw
  obtain ⟨s', found', hrun', hother⟩ := hbeside w rest ds hlen hnext
  obtain ⟨rfl, hsame⟩ := EStateM.Result.ok.inj (hrun.symm.trans hrun')
  obtain rfl : found = found' := congrArg Cursor.diagnostics hsame
  have hstart : { rest := us ++ [semicolon] ++ rest, diagnostics := ds } =
      (Sides.simple hkind [.endAt 0] rest [] ds).right us 0 [] := by
    simp [Sides.right, Sides.simple]
  rw [hstart]
  exact hother

theorem Item.readsAs (h : Item room ts) : ∃ s found, ReadsAs room ts s found := by
  rcases h with ⟨hts, s, z, hz, hread⟩ | hsimple
  · exact ⟨some s, [], readsAs_of_alone hts hz hread⟩
  · exact hsimple.readsAs

/-! ## Parts behind one another -/

/-- Declarations read before are in front of those that follow. -/
theorem topLevels_done (w : Nat) :
    ∀ n (c : Cursor), ∃ p d, ∀ done, topLevels w room n done c = .ok (done.reverse ++ p) d := by
  intro n
  induction n with
  | zero => exact fun c => ⟨[], c, fun done => by rw [List.append_nil]; rfl⟩
  | succ n ih =>
    intro c
    have hend : atEnd c = .ok c.atEnd c := rfl
    by_cases hclosed : c.atEnd = true
    · refine ⟨[], c, fun done => ?_⟩
      rw [topLevels, bind_ok hend, if_pos hclosed, List.append_nil]
      rfl
    · obtain ⟨s, d, hs⟩ : ∃ s d, topLevel w room c = .ok s d := topLevel_ok c
      obtain ⟨p, d', hp⟩ := ih d
      cases s with
      | none =>
        refine ⟨p, d', fun done => ?_⟩
        rw [topLevels, bind_ok hend, if_neg hclosed, bind_ok hs]
        exact hp done
      | some s =>
        refine ⟨s :: p, d', fun done => ?_⟩
        rw [topLevels, bind_ok hend, if_neg hclosed, bind_ok hs]
        have hmore := hp (s :: done)
        rw [List.reverse_cons, List.append_assoc, List.singleton_append] at hmore
        exact hmore

/-- A turn of the top level over a part. -/
theorem ReadsAs.turn (h : ReadsAs room ts s found) {w : Nat} {rest : List Token} {t : Token}
    {us : List Token} (hts : ts = t :: us) (ht : t.isEnd = false) (hw : ts.length ≤ w)
    (hnext : (ahead rest (.endAt 0)).kind ≠ .elseWord) (n : Nat) (done : List Stmt)
    (ds : List Diagnostic) :
    topLevels w room (n + 1) done { rest := ts ++ rest, diagnostics := ds } =
      topLevels w room n (s.toList ++ done) { rest := rest, diagnostics := ds ++ found } := by
  have hend : atEnd { rest := ts ++ rest, diagnostics := ds } =
      .ok false { rest := ts ++ rest, diagnostics := ds } := by
    rw [hts]
    exact congrArg (EStateM.Result.ok · _) ht
  rw [topLevels, bind_ok hend, if_neg Bool.false_ne_true, bind_ok (h w rest ds hw hnext)]
  cases s <;> rfl

/-- **An item alone** is a program of what it is read as. -/
theorem ReadsAs.alone (h : ReadsAs room ts s found) {z t : Token} {us : List Token}
    (hts : ts = t :: us) (ht : t.isEnd = false) (hz : z.isEnd) :
    Program.ofTokens room (ts ++ [z]) = ⟨s.toList, found⟩ := by
  have hlen : (ts ++ [z]).length = us.length + 1 + 1 := by
    rw [hts]
    exact List.length_append
  have hnext : (ahead [z] (.endAt 0)).kind ≠ .elseWord := by
    rw [ahead_cons, beq_iff_eq.mp hz]
    decide
  have hturn := h.turn hts ht (show ts.length ≤ us.length + 1 + 1 by rw [hts]; simp)
    hnext (us.length + 1) [] []
  have hend : atEnd { rest := [z], diagnostics := found } =
      .ok true { rest := [z], diagnostics := found } := congrArg (EStateM.Result.ok · _) hz
  have hrun : topLevels (us.length + 1 + 1) room (us.length + 1 + 1) [] { rest := ts ++ [z] } =
      .ok s.toList { rest := [z], diagnostics := found } := by
    rw [hturn, List.nil_append, topLevels, bind_ok hend, if_pos rfl]
    cases s <;> rfl
  rw [← hlen] at hrun
  exact Program.ofTokens_of_topLevels hrun

/-- Any token list has a first token that closes it. -/
theorem exists_closing (b : List Token) {z : Token} (hz : z.isEnd) :
    ∃ us y beyond, b ++ [z] = us ++ y :: beyond ∧ y.isEnd ∧ ∀ t ∈ us, t.isEnd = false := by
  have hsome : ((b ++ [z]).find? Token.isEnd).isSome := by
    rw [List.find?_isSome]
    exact ⟨z, List.mem_append_right _ List.mem_cons_self, hz⟩
  obtain ⟨y, hy⟩ := Option.isSome_iff_exists.mp hsome
  obtain ⟨hyend, us, beyond, hsplit, hus⟩ := List.find?_eq_some_iff_append.mp hy
  exact ⟨us, y, beyond, hsplit, hyend, fun t ht => by simpa using hus t ht⟩

/-- **What stands last is read as it is alone**, within any bound that is large enough and whatever
has been recorded before. -/
theorem topLevels_last (b : List Token) {z : Token} (hz : z.isEnd) {w n : Nat}
    (hw : b.length < w) (hn : b.length < n) (ds : List Diagnostic) :
    ∃ d, topLevels w room n [] { rest := b ++ [z], diagnostics := ds } =
        .ok (Program.ofTokens room (b ++ [z])).result d ∧
      d.diagnostics = ds ++ (Program.ofTokens room (b ++ [z])).diagnostics := by
  obtain ⟨us, y, beyond, hsplit, hy, hus⟩ := exists_closing b hz
  have hlen : us.length ≤ b.length := by
    have := congrArg List.length hsplit
    simp at this
    omega
  have hwidth : us.length < (b ++ [z]).length := by
    rw [List.length_append]
    exact Nat.lt_succ_of_le hlen
  let S := Sides.closing hy beyond beyond [] ds
  have hleft : S.left us 0 [] = { rest := b ++ [z] } := by
    rw [hsplit]
    rfl
  have hright : S.right us 0 [] = { rest := b ++ [z], diagnostics := ds } := by
    rw [hsplit]
    exact congrArg (Cursor.mk (us ++ y :: beyond) 0) (List.append_nil ds)
  obtain ⟨vs, ds', -, hboth⟩ := Sides.topLevelsAgree (S := S) hy hwidth
    (Nat.lt_of_le_of_lt hlen hw) room (b ++ [z]).length n [] us.length (Nat.le_refl _) hwidth
    (Nat.lt_of_le_of_lt hlen hn) us 0 [] (Sides.closing_inside hus) rfl
  rw [hleft, hright] at hboth
  rcases hboth with ⟨p, halone, hrun, -⟩ | ⟨e, halone, -⟩
  · rw [Program.ofTokens_of_topLevels halone]
    exact ⟨_, hrun, rfl⟩
  · obtain ⟨p, d, hok⟩ : ∃ p d, topLevels (b ++ [z]).length room (b ++ [z]).length []
        { rest := b ++ [z] } = .ok p d := topLevels_ok _ _ _
    cases halone.symm.trans hok

/-- **No part but the first begins with `else`.** -/
def Apart (parts : List (List Token)) : Prop :=
  ∀ ts ∈ parts.tail, ∀ t ∈ ts.head?, t.kind ≠ .elseWord

/-- Behind an item the next part begins, or the list is closed. -/
theorem Apart.next {items : List (List Token)} {b : List Token} {z : Token} (hz : z.isEnd)
    (hitems : ∀ us ∈ items, Item room us) (h : Apart (ts :: items ++ [b])) :
    (ahead (items.flatten ++ (b ++ [z])) (.endAt 0)).kind ≠ .elseWord := by
  cases items with
  | nil =>
    cases b with
    | nil =>
      show z.kind ≠ _
      rw [beq_iff_eq.mp hz]
      decide
    | cons t b => exact h (t :: b) List.mem_cons_self t rfl
  | cons us items =>
    obtain ⟨t, us, rfl, -⟩ := (hitems us List.mem_cons_self).head
    exact h (t :: us) List.mem_cons_self t rfl

theorem Apart.tail {items : List (List Token)} {b : List Token}
    (h : Apart (ts :: items ++ [b])) : Apart (items ++ [b]) :=
  fun us hus => h us (List.mem_of_mem_tail hus)

/-- **Reading goes over the items one after the other.** -/
theorem topLevels_items {items : List (List Token)} (b : List Token) {y z : Token} (hy : y.isEnd)
    (hz : z.isEnd) (hitems : ∀ ts ∈ items, Item room ts) (happart : Apart (items ++ [b]))
    {w n : Nat} (hw : items.flatten.length + b.length < w)
    (hn : items.flatten.length + b.length < n) (ds : List Diagnostic) :
    ∃ d, topLevels w room n [] { rest := items.flatten ++ (b ++ [z]), diagnostics := ds } =
        .ok ((items.flatMap fun ts => (Program.ofTokens room (ts ++ [y])).result) ++
          (Program.ofTokens room (b ++ [z])).result) d ∧
      d.diagnostics = ds ++ ((items.flatMap fun ts =>
        (Program.ofTokens room (ts ++ [y])).diagnostics) ++
          (Program.ofTokens room (b ++ [z])).diagnostics) := by
  induction items generalizing n ds with
  | nil => exact topLevels_last b hz (by simpa using hw) (by simpa using hn) ds
  | cons ts items ih =>
    have hitem := hitems ts List.mem_cons_self
    have hrest : ∀ us ∈ items, Item room us := fun us hus => hitems us (List.mem_cons_of_mem ts hus)
    obtain ⟨s, found, hread⟩ := hitem.readsAs
    obtain ⟨t, us, hts, ht⟩ := hitem.head
    have halone := hread.alone hts ht hy
    have hlen : (ts :: items).flatten.length = us.length + 1 + items.flatten.length := by
      rw [List.flatten_cons, List.length_append, hts, List.length_cons]
    obtain ⟨n, rfl⟩ := Nat.exists_eq_add_one_of_ne_zero (Nat.ne_zero_of_lt hn)
    obtain ⟨d, hrun, hd⟩ := ih hrest happart.tail (n := n) (by omega) (by omega) (ds ++ found)
    -- what the first item is read as is in front of what the others are
    obtain ⟨p, d', hdone⟩ := topLevels_done w n
      { rest := items.flatten ++ (b ++ [z]), diagnostics := ds ++ found }
    obtain ⟨rfl, rfl⟩ := EStateM.Result.ok.inj ((hdone []).symm.trans hrun)
    refine ⟨d', ?_, ?_⟩
    · have hturn := hread.turn (w := w) hts ht (by rw [hts, List.length_cons]; omega)
        (happart.next hz hrest) n [] ds
      rw [List.flatten_cons, List.append_assoc, hturn, List.append_nil, hdone, List.flatMap_cons,
        halone, List.append_assoc]
      cases s <;> rfl
    · rw [hd, List.flatMap_cons, halone, List.append_assoc, List.append_assoc]

end Grammar

open Grammar

/-- **Errors stay local to their statement.**  Items that stand behind one another, and any tokens
behind them, are read as each part is alone: the statements are those of the parts, and so are the
diagnostics, in order. -/
theorem Program.ofTokens_items {room : Nat} {items : List (List Token)} {b : List Token}
    {y z : Token} (hy : y.isEnd) (hz : z.isEnd) (hitems : ∀ ts ∈ items, Item room ts)
    (happart : Apart (items ++ [b])) :
    Program.ofTokens room (items.flatten ++ (b ++ [z])) =
      ⟨(items.flatMap fun ts => (Program.ofTokens room (ts ++ [y])).result) ++
          (Program.ofTokens room (b ++ [z])).result,
        (items.flatMap fun ts => (Program.ofTokens room (ts ++ [y])).diagnostics) ++
          (Program.ofTokens room (b ++ [z])).diagnostics⟩ := by
  have hlen : items.flatten.length + b.length < (items.flatten ++ (b ++ [z])).length := by
    rw [List.length_append, List.length_append, List.length_singleton]
    omega
  obtain ⟨d, hrun, hd⟩ := topLevels_items b hy hz hitems happart hlen hlen []
  rw [Program.ofTokens_of_topLevels hrun, hd, List.nil_append]

/-- The tokens of `a b;` and of `{ a; }`. -/
def slipAndBlock : List (List Token) :=
  [[⟨.identifier, "a", 1⟩, ⟨.identifier, "b", 1⟩, ⟨.semicolon, ";", 1⟩],
    [⟨.leftBrace, "\x7b", 1⟩, ⟨.identifier, "a", 1⟩, ⟨.semicolon, ";", 1⟩,
      ⟨.rightBrace, "\x7d", 1⟩]]

/-- The tokens of `) fun`. -/
def strayFun : List Token := [⟨.rightParen, ")", 1⟩, ⟨.funWord, "fun", 1⟩]

/-- A simple statement with a slip, a block behind it, and broken tokens behind both. -/
theorem Program.ofTokens_items_of_slipAndBlock :
    Program.ofTokens 60 (slipAndBlock.flatten ++ (strayFun ++ [.endAt 1])) =
      ⟨[.block [.expression (.name ⟨⟨.identifier, "a", 1⟩, none⟩)]],
        [.atToken ⟨.identifier, "b", 1⟩ "Expect ';' after expression.",
          .atToken ⟨.rightParen, ")", 1⟩ "Expect expression.",
          .atToken (.endAt 1) "Expect function name."]⟩ := by
  have hitems : ∀ ts ∈ slipAndBlock, Item 60 ts := by
    intro ts hts
    rcases List.mem_cons.mp hts with rfl | hts
    · exact .inr ⟨[⟨.identifier, "a", 1⟩, ⟨.identifier, "b", 1⟩], ⟨.semicolon, ";", 1⟩, rfl, rfl,
        by decide, by decide, by decide⟩
    · obtain rfl := List.mem_singleton.mp hts
      exact .inl ⟨by decide, _, .endAt 1, rfl, rfl⟩
  have happart : Apart (slipAndBlock ++ [strayFun]) := by
    unfold Apart
    decide
  rw [Program.ofTokens_items (y := .endAt 1) (z := .endAt 1) rfl rfl hitems happart]
  rfl

end LoxKit
