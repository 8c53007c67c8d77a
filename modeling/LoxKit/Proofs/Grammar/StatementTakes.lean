import LoxKit.Proofs.Grammar.ExpressionTakes
import LoxKit.Proofs.Grammar.Passage

/-!
# What reading a statement takes

A reader of statements that finds nothing wrong has consumed tokens that write the statement it
yields, inside as many loops and in the room it was given (`Takes.statementRules`).  If the
statement is open, no `else` is ahead.
-/
namespace LoxKit
namespace Grammar

variable {w l room : Nat}

/-- **What reading a statement takes**: the tokens that write it. -/
def StatementTaken (l room : Nat) (s : Stmt) (ts : List Token) (next : Token) : Prop :=
  ∃ isOpen, Passage.Written (.statement s isOpen) l room ts ∧
    (isOpen = true → next.kind ≠ .elseWord)

/-- **What reading a declaration takes.** -/
def DeclarationTaken (l room : Nat) (s : Option Stmt) (ts : List Token) (next : Token) : Prop :=
  ∃ s' isOpen, s = some s' ∧ Passage.Written (.declaration s' isOpen) l room ts ∧
    (isOpen = true → next.kind ≠ .elseWord)

/-- A declaration is an item of a block, or of a program. -/
theorem DeclarationTaken.item {s : Option Stmt} {ts : List Token} {next : Token}
    (h : DeclarationTaken l room s ts next) : ∃ s', s = some s' ∧
      (∃ isOpen, Passage.Written (.declaration s' isOpen) l room ts) ∧ ts ≠ [] := by
  obtain ⟨s, isOpen, rfl, hs, -⟩ := h
  exact ⟨s, rfl, ⟨isOpen, hs⟩, hs.ne_nil rfl⟩

/-- Items of a class body write its methods. -/
theorem Passage.Written.ofMethods {ds : List FunDecl} {ts : List Token}
    (h : Series (fun d ts => Passage.Written (.function d) l room ts) ds ts) :
    Passage.Written (.methods ds) l room ts := by
  induction h with
  | nil => exact .noMethods
  | cons hd _ _ ih => exact .moreMethods hd ih

/-- Items of a block, or of a program, write its declarations. -/
theorem Passage.Written.ofDeclarations {ss : List Stmt} {ts : List Token}
    (h : Series (fun s ts => ∃ isOpen, Passage.Written (.declaration s isOpen) l room ts) ss ts) :
    Passage.Written (.declarations ss) l room ts := by
  induction h with
  | nil => exact .noDeclarations
  | cons hs _ _ ih =>
    obtain ⟨isOpen, hs⟩ := hs
    exact .moreDeclarations hs ih

namespace Takes

/-! ## Parts without statements -/

theorem clause {kind : TokenKind} (hkind : kind ≠ .endOfInput) :
    Takes w l (Grammar.unless? kind (Grammar.expression w room)) fun e ts _ =>
      ClauseWritten room e ts := by
  refine (Takes.unless? hkind (.rules w l room .expression)).mono ?_
  rintro _ _ _ (⟨rfl, rfl⟩ | ⟨e, rfl, he⟩)
  · rfl
  · exact he

theorem variableDecl : Takes w l (Grammar.variableDecl w room) fun s ts _ =>
    VariableWritten room s ts := by
  unfold Grammar.variableDecl
  refine Takes.mono (.bind (.need room) fun _ => .bind (.expect _ _) fun name =>
    .bind (.behind? (by decide) (.rules w l room .conditional)) fun initial =>
      .bind (.expect _ _) fun _ => .pure _) ?_
  rintro _ _ next ⟨-, _, _, rfl, ⟨rfl, hroom⟩, name, _, _, rfl, ⟨rfl, hname⟩, initial, us, _, rfl,
    hinitial, semicolon, _, _, rfl, ⟨rfl, hsemicolon⟩, rfl, rfl⟩
  refine .mk hroom hname ?_ hsemicolon
  rcases hinitial with ⟨equals, vs, e, rfl, hequals, rfl, he, -⟩ | ⟨rfl, rfl, -⟩
  · exact ⟨equals, vs, hequals, he, rfl⟩
  · rfl

theorem expressionStatement : Takes w l (Grammar.expressionStatement w room) fun s ts _ =>
    ∃ e semicolon us, s = .expression e ∧ Written (.expr .expression e) room us ∧
      semicolon.kind = .semicolon ∧ ts = us ++ [semicolon] := by
  unfold Grammar.expressionStatement
  refine Takes.mono (.bind (.rules w l room .expression) fun e => .bind (.expect _ _) fun _ =>
    .pure _) ?_
  rintro _ _ next ⟨e, us, _, rfl, he, semicolon, _, _, rfl, ⟨rfl, hsemicolon⟩, rfl, rfl⟩
  exact ⟨e, semicolon, us, rfl, he, hsemicolon, rfl⟩

theorem forInitial : Takes w l (Grammar.forInitial w room) fun s ts _ =>
    FirstWritten room s ts := by
  unfold Grammar.forInitial
  refine Takes.mono (.onAccept (by decide) (.pure _) <| .onAccept (by decide)
    (.bind variableDecl fun _ => .pure _) (.bind expressionStatement fun _ => .pure _)) ?_
  rintro _ _ next (⟨semicolon, _, rfl, hsemicolon, rfl, rfl⟩ | ⟨-, ⟨keyword, _, rfl, hkeyword, s,
    us, _, rfl, hs, rfl, rfl⟩ | ⟨-, s, _, _, rfl, ⟨e, semicolon, us, rfl, he, hsemicolon, rfl⟩, rfl,
    rfl⟩⟩)
  · exact .none hsemicolon
  · rw [List.append_nil]
    exact .var hkeyword hs
  · rw [List.append_nil]
    exact .expression he hsemicolon

theorem params {kind : TokenKind} (hkind : kind ≠ .endOfInput) {what item : String} :
    Takes w l (Grammar.unless? kind (Grammar.commaList item (Grammar.expect .identifier what) w []))
      fun params ts _ => ParamsWritten (params.getD []) ts := by
  refine (Takes.unless? hkind (.of_bounded (.commaList (.expect _ _) w []))).mono ?_
  rintro _ _ _ (⟨rfl, rfl⟩ | ⟨ps, rfl, new, rfl, hnew, hlen⟩)
  · exact .inl ⟨rfl, rfl⟩
  · exact .inr ⟨hnew, hlen (Nat.zero_le _)⟩

theorem superclass : Takes w l (Grammar.behind? .less
    (Grammar.expect .identifier "superclass name")) fun r ts _ =>
      SuperclassWritten (r.map (⟨·, none⟩)) ts := by
  refine (Takes.behind? (by decide) (.expect _ _)).mono ?_
  rintro _ _ _ (⟨less, _, name, rfl, hless, rfl, rfl, hname⟩ | ⟨rfl, rfl, -⟩)
  · exact ⟨less, name, hless, hname, rfl, rfl⟩
  · rfl

/-! ## Functions and classes -/

theorem functionDecl {kind : FunctionKind} {body : Reader (List Stmt)}
    (hbody : Takes w 0 body fun ss ts _ => Passage.Written (.body ss) 0 room ts) :
    Takes w l (Grammar.functionDecl w room kind body) fun d ts _ =>
      Passage.Written (.function d) l room ts := by
  unfold Grammar.functionDecl
  refine Takes.mono (.bind (.need room) fun _ => .bind (.expect _ _) fun name =>
    .bind (.expect _ _) fun _ => .bind (params (by decide)) fun ps => .bind (.expect _ _) fun _ =>
      .bind (.expect _ _) fun _ => .bind (.withLoops hbody) fun ss => .pure _) ?_
  rintro _ _ next ⟨-, _, _, rfl, ⟨rfl, -⟩, name, _, _, rfl, ⟨rfl, hname⟩, left, _, _, rfl,
    ⟨rfl, hleft⟩, ps, us, _, rfl, hps, right, _, _, rfl, ⟨rfl, hright⟩, brace, _, _, rfl,
    ⟨rfl, hbrace⟩, ss, vs, _, rfl, hss, rfl, rfl⟩
  simpa using Passage.Written.functionDecl hname hleft hps hright hbrace hss

theorem classDecl {method : Reader FunDecl}
    (hmethod : Takes w l method fun d ts _ => Passage.Written (.function d) l room ts) :
    Takes w l (Grammar.classDecl w (room + 2) method) fun s ts _ =>
      ∃ name superclass ds us left vs right, s = .classDecl name superclass ds ∧ 2 ≤ room ∧
        name.kind = .identifier ∧ SuperclassWritten superclass us ∧ left.kind = .leftBrace ∧
        Passage.Written (.methods ds) l room vs ∧ right.kind = .rightBrace ∧
        ts = name :: (us ++ left :: (vs ++ [right])) := by
  have hitem : Takes w l (do return some (← method)) fun o ts _ =>
      ∃ d, o = some d ∧ Passage.Written (.function d) l room ts ∧ ts ≠ [] := by
    refine Takes.mono (.bind hmethod fun _ => .pure _) ?_
    rintro _ _ _ ⟨d, ts, _, rfl, hd, rfl, rfl⟩
    rw [List.append_nil]
    refine ⟨d, rfl, hd, ?_⟩
    cases hd
    exact List.cons_ne_nil _ _
  unfold Grammar.classDecl
  refine Takes.mono (.bind (.need (room + 2)) fun _ => .bind (.expect _ _) fun name =>
    .bind superclass fun _ => .bind (.expect _ _) fun _ =>
      .bind (.of_bounded (.untilBrace hitem w [])) fun _ => .bind (.expect _ _) fun _ => .pure _) ?_
  rintro _ _ next ⟨-, _, _, rfl, ⟨rfl, hroom⟩, name, _, _, rfl, ⟨rfl, hname⟩, sup, us, _, rfl, hsup,
    left, _, _, rfl, ⟨rfl, hleft⟩, ds, vs, _, rfl, ⟨new, rfl, hnew⟩, right, _, _, rfl,
    ⟨rfl, hright⟩, rfl, rfl⟩
  exact ⟨name, _, _, us, left, vs, right, rfl, by omega, hname, hsup, hleft,
    Passage.Written.ofMethods hnew, hright, by simp⟩

/-! ## The rules -/

/-- What the rules for statements take in some room. -/
structure StatementRules (w room : Nat) : Prop where
  declaration : ∀ l, Takes w l (Grammar.declaration w room) (DeclarationTaken l room)
  statement : ∀ l, Takes w l (Grammar.statement w room) (StatementTaken l room)
  block : ∀ l, Takes w l (Grammar.block w room) fun ss ts _ =>
    Passage.Written (.body ss) l room ts

theorem declaration (hblock : StatementRules w room) (hblock' : StatementRules w (room + 1))
    (hstatement : StatementRules w (room + 3)) :
    Takes w l (Grammar.declaration w (room + 5)) (DeclarationTaken l (room + 5)) := by
  unfold Grammar.declaration
  refine Takes.mono (.orResume (.bind (.need _) fun _ => .onAccept (by decide)
    (classDecl (functionDecl (hblock.block 0))) <| .onAccept (by decide)
    (.bind (functionDecl (hblock'.block 0)) fun _ => .pure _) <| .onAccept (by decide)
    variableDecl (hstatement.statement l))) ?_
  rintro _ _ next ⟨s, rfl, -, _, _, rfl, ⟨rfl, -⟩, hread⟩
  rcases hread with ⟨keyword, _, rfl, hkeyword, name, sup, ds, us, left, vs, right, rfl, hroom,
    hname, hsup, hleft, hds, hright, rfl⟩ | ⟨-, ⟨keyword, _, rfl, hkeyword, d, us, _, rfl, hd, rfl,
    rfl⟩ | ⟨-, ⟨keyword, us, rfl, hkeyword, hs⟩ | ⟨-, isOpen, hs, hopen⟩⟩⟩
  · exact ⟨_, false, rfl, .classDecl hkeyword hroom hname hsup hleft hds hright, nofun⟩
  · rw [List.append_nil]
    exact ⟨_, false, rfl, .function hkeyword hd, nofun⟩
  · exact ⟨_, false, rfl, .var hkeyword hs, nofun⟩
  · exact ⟨s, isOpen, rfl, .ofStatement hs, hopen⟩

theorem block (h : StatementRules w room) :
    Takes w l (Grammar.block w (room + 2)) fun ss ts _ =>
      Passage.Written (.body ss) l (room + 2) ts := by
  have hitem := (h.declaration l).mono fun _ _ _ => DeclarationTaken.item
  unfold Grammar.block
  refine Takes.mono (.bind (.need room) fun _ => .bind (.of_bounded (.untilBrace hitem w []))
    fun ss => .bind (.expect _ _) fun _ => .pure _) ?_
  rintro _ _ next ⟨-, _, _, rfl, ⟨rfl, hroom⟩, ss, us, _, rfl, ⟨new, rfl, hnew⟩, right, _, _, rfl,
    ⟨rfl, hright⟩, rfl, rfl⟩
  exact .body hroom (Passage.Written.ofDeclarations hnew) hright

theorem statement (h : StatementRules w room) (h' : StatementRules w (room + 1))
    (hblock : StatementRules w (room + 2)) :
    Takes w l (Grammar.statement w (room + 4)) (StatementTaken l (room + 4)) := by
  have hexpr := Takes.rules w l (room + 1) .expression
  unfold Grammar.statement
  refine Takes.mono (.bind (.need _) fun _ => .onAccept? (Q := fun keyword s ts next =>
    isStatementWord keyword.kind → StatementTaken l (room + 4) s (keyword :: ts) next)
    (fun keyword => ?_) expressionStatement) ?_
  · dsimp only
    split
    case h_1 hk =>
      refine Takes.mono (.bind (.need _) fun _ => .bind .get fun c => .ite
        (.bind (.blame _ _) fun _ => .bind (.expect _ _) fun _ => .pure _)
        (.bind (.expect _ _) fun _ => .pure _)) ?_
      rintro s _ next ⟨-, _, _, rfl, ⟨rfl, hroom⟩, c, _, _, rfl, ⟨rfl, -, rfl⟩,
        ⟨-, _, _, _, -, hfalse, -⟩ | ⟨hl, semicolon, _, _, rfl, ⟨rfl, hsemicolon⟩, rfl, rfl⟩⟩ -
      · exact hfalse.elim
      · obtain ⟨room, rfl⟩ : ∃ r, room = r + 3 := ⟨room - 3, by omega⟩
        exact ⟨false, .leave hk (Nat.pos_of_ne_zero hl) hsemicolon, nofun⟩
    case h_2 hk =>
      refine Takes.mono (.bind (.need _) fun _ => .bind (.expect _ _) fun _ =>
        .bind forInitial fun initial => .bind (clause (by decide)) fun test =>
          .bind (.expect _ _) fun _ => .bind (clause (by decide)) fun increment =>
            .bind (.expect _ _) fun _ => .bind (.withLoops (h.statement _)) fun body => .pure _) ?_
      rintro s _ next ⟨-, _, _, rfl, ⟨rfl, -⟩, left, _, _, rfl, ⟨rfl, hleft⟩, initial, ts, _, rfl,
        hinitial, test, us, _, rfl, htest, semicolon, _, _, rfl, ⟨rfl, hsemicolon⟩, increment, vs,
        _, rfl, hincrement, right, _, _, rfl, ⟨rfl, hright⟩, body, ws, _, rfl, ⟨isOpen, hbody,
        hopen⟩, rfl, rfl⟩ -
      refine ⟨isOpen, ?_, hopen⟩
      simpa using Passage.Written.forLoop hk hleft hinitial htest hsemicolon hincrement hright hbody
    case h_3 hk =>
      refine Takes.mono (.bind (.need _) fun _ => .bind (.expect _ _) fun _ =>
        .bind hexpr fun test => .bind (.expect _ _) fun _ => .bind (h'.statement l) fun yes =>
          .bind (.behind? (by decide) (h'.statement l)) fun no => .pure _) ?_
      rintro s _ next ⟨-, _, _, rfl, ⟨rfl, -⟩, left, _, _, rfl, ⟨rfl, hleft⟩, test, ts, _, rfl,
        htest, right, _, _, rfl, ⟨rfl, hright⟩, yes, us, _, rfl, ⟨isOpen, hyes, hopen⟩, no, _, _,
        rfl, ⟨other, vs, no, rfl, hother, rfl, isOpen', hno, hopen'⟩ | ⟨rfl, rfl, hnext⟩,
        rfl, rfl⟩ -
      · -- an `else` is ahead of the first arm, so it is not open
        obtain rfl : isOpen = false := Bool.eq_false_iff.mpr fun htrue => hopen htrue hother
        refine ⟨isOpen', ?_, hopen'⟩
        simpa using Passage.Written.branchElse hk hleft htest hright hyes hother hno
      · refine ⟨true, ?_, fun _ => hnext⟩
        simpa using Passage.Written.branch hk hleft htest hright hyes
    case h_4 hk =>
      refine Takes.mono (.bind hexpr fun _ => .bind (.expect _ _) fun _ => .pure _) ?_
      rintro s _ next ⟨e, ts, _, rfl, he, semicolon, _, _, rfl, ⟨rfl, hsemicolon⟩, rfl, rfl⟩ -
      exact ⟨false, .print hk he hsemicolon, nofun⟩
    case h_5 hk =>
      refine Takes.mono (.bind (clause (by decide)) fun _ => .bind (.need _) fun _ =>
        .bind (.expect _ _) fun _ => .pure _) ?_
      rintro s _ next ⟨e, ts, _, rfl, he, -, _, _, rfl, ⟨rfl, hroom⟩, semicolon, _, _, rfl,
        ⟨rfl, hsemicolon⟩, rfl, rfl⟩ -
      obtain ⟨room, rfl⟩ : ∃ r, room = r + 3 := ⟨room - 3, by omega⟩
      exact ⟨false, .giveBack hk he hsemicolon, nofun⟩
    case h_6 hk =>
      refine Takes.mono (.bind (.need _) fun _ => .bind (.expect _ _) fun _ =>
        .bind hexpr fun test => .bind (.expect _ _) fun _ =>
          .bind (.withLoops (h.statement _)) fun body => .pure _) ?_
      rintro s _ next ⟨-, _, _, rfl, ⟨rfl, -⟩, left, _, _, rfl, ⟨rfl, hleft⟩, test, ts, _, rfl,
        htest, right, _, _, rfl, ⟨rfl, hright⟩, body, us, _, rfl, ⟨isOpen, hbody, hopen⟩,
        rfl, rfl⟩ -
      refine ⟨isOpen, ?_, hopen⟩
      simpa using Passage.Written.loop hk hleft htest hright hbody
    case h_7 hbreak hfor hif hprint hreturn hwhile =>
      refine Takes.mono (.bind (hblock.block l) fun _ => .pure _) ?_
      rintro s _ next ⟨ss, ts, _, rfl, hss, rfl, rfl⟩ hword
      rw [List.append_nil]
      refine ⟨false, .block ?_ hss, nofun⟩
      revert hword
      cases hkind : keyword.kind <;> first | contradiction | decide
  · rintro s _ next ⟨-, _, ts, rfl, ⟨rfl, -⟩, ⟨keyword, us, rfl, hkeyword, hread⟩ |
      ⟨-, e, semicolon, us, rfl, he, hsemicolon, rfl⟩⟩
    · exact hread hkeyword
    · exact ⟨false, .expression he hsemicolon, nofun⟩

/-- **What the rules for statements take**, in any room. -/
theorem statementRules (w room : Nat) : StatementRules w room := by
  induction room using Nat.strongRecOn with
  | _ room ih =>
    refine ⟨fun l => ?_, fun l => ?_, fun l => ?_⟩
    · match room with
      | 0 | 1 | 2 | 3 | 4 => exact .tooDeep _
      | r + 5 => exact declaration (ih r (by omega)) (ih (r + 1) (by omega)) (ih (r + 3) (by omega))
    · match room with
      | 0 | 1 | 2 | 3 => exact .tooDeep _
      | r + 4 => exact statement (ih r (by omega)) (ih (r + 1) (by omega)) (ih (r + 2) (by omega))
    · match room with
      | 0 | 1 => exact .tooDeep _
      | r + 2 => exact block (ih r (by omega))

/-! ## A whole token list -/

/-- Top-level declarations up to the end.  If there are as many as the bound, there is a token
for each unit of it. -/
theorem topLevels : ∀ (n : Nat) (done : List Stmt),
    Takes w l (Grammar.topLevels w room n done) fun p ts next =>
      (∃ new, p = done.reverse ++ new ∧ Passage.Written (.declarations new) l room ts ∧
        next.isEnd) ∨ n ≤ ts.length := by
  have hitem : Takes w l (Grammar.topLevel w room) (DeclarationTaken l room) :=
    .orGiveUp ((statementRules w room).declaration l)
  intro n
  induction n with
  | zero => exact fun done => (Takes.pure _).mono fun _ _ _ _ => .inr (Nat.zero_le _)
  | succ n ih =>
    intro done
    unfold Grammar.topLevels
    refine Takes.mono (.bind .atEnd fun _ => .ite (.pure _)
      (.bind (R := fun o p ts next => ∀ s, o = some s →
        (∃ new, p = done.reverse ++ s :: new ∧ Passage.Written (.declarations new) l room ts ∧
          next.isEnd) ∨ n ≤ ts.length) hitem fun o => ?_)) ?_
    · cases o with
      | none => exact (ih done).mono fun _ _ _ _ => nofun
      | some s =>
        refine (ih (s :: done)).mono fun p ts next h => ?_
        rintro _ ⟨⟩
        simpa using h
    · rintro p _ next ⟨b, us, _, rfl, ⟨rfl, hb⟩, ⟨rfl, rfl, rfl⟩ |
        ⟨-, o, ts, us, rfl, ⟨s, isOpen, rfl, hs, -⟩, hread⟩⟩
      · exact .inl ⟨[], by simp, .noDeclarations, hb.symm⟩
      · rcases hread s rfl with ⟨new, rfl, hnew, hnext⟩ | hbound
        · exact .inl
            ⟨s :: new, rfl, by simpa using Passage.Written.moreDeclarations hs hnew, hnext⟩
        · have hpos := List.length_pos_iff.mpr (hs.ne_nil rfl)
          exact .inr (by simp only [List.length_append, List.length_nil]; omega)

end Takes
end Grammar
end LoxKit
