import LoxKit.Proofs.Grammar.Framed
import LoxKit.Proofs.Grammar.Relined
import LoxKit.Proofs.Grammar.StatementLeads

/-!
# Source texts joined by a line feed

Nothing runs on over the line feed between two texts, if nothing is wrong in the first: the
tokens of the whole are those of the two texts one after the other, those of the second on later
lines (`scan_joined`).  Nor does a declaration: what the whole is read as are the declarations
of the two texts (`Program.ofTokens_joined`).
-/
namespace LoxKit

/-- **Two texts on lines of their own.** -/
def joined (a b : String) : String := a ++ "\n" ++ b

/-! ## Tokens -/

/-- A piece so many lines further down. -/
def Piece.moved (lines : Nat) (p : Piece) : Piece := { p with line := p.line + lines }

/-- A text that begins further down has its pieces further down. -/
theorem Scan.cutOnto_moved (lines line : Nat) (cs : List Char) :
    cutOnto [] (line + lines) 0 cs = (cutOnto [] line 0 cs).map (Piece.moved lines) := by
  induction cs using pieces_induction generalizing line with
  | nil => rfl
  | piece c t cs role hform ih =>
    rw [cutOnto_form hform, cutOnto_form hform, List.map_cons, Nat.add_right_comm line, ih,
      Piece.moved]

theorem Piece.diagnostic?_moved (lines : Nat) (p : Piece) :
    (p.moved lines).diagnostic? = none ↔ p.diagnostic? = none := by
  unfold diagnostic? moved
  cases p.role <;> simp

theorem Piece.token?_moved (lines : Nat) (p : Piece) :
    (p.moved lines).token?.map Token.unlined = p.token?.map Token.unlined := by
  unfold token? moved
  cases p.role <;> rfl

/-- The tokens of pieces further down are the same but for their lines. -/
theorem Piece.relined_moved (lines : Nat) (ps : List Piece) :
    Grammar.Relined (ps.filterMap (·.token?)) ((ps.map (moved lines)).filterMap (·.token?)) := by
  unfold Grammar.Relined
  rw [List.map_filterMap, List.map_filterMap, List.filterMap_map]
  exact congrArg (List.filterMap · ps) (funext fun p => p.token?_moved lines)

/-- The pieces of two texts on lines of their own. -/
theorem Piece.split_joined {a b : String} (ha : (scan a).diagnostics = []) :
    Piece.split (joined a b).toList = Piece.split a.toList ++
      ⟨.blank, ['\n'], 1 + (Scan.feeds a.toList + 1)⟩ ::
        (Piece.split b.toList).map (moved (Scan.feeds a.toList + 1)) := by
  have hclean : ∀ p ∈ Piece.split a.toList, p.diagnostic? = none :=
    List.filterMap_eq_nil_iff.mp ha
  have htext : (joined a b).toList = a.toList ++ '\n' :: b.toList := by simp [joined]
  have hseam := Scan.cutOnto_append hclean b.toList
  rw [Scan.cutOnto_feed, Nat.add_assoc, Scan.cutOnto_moved] at hseam
  rw [htext]
  exact hseam

/-- The tokens of a text, without the closing one. -/
def inner (source : String) : List Token := (Piece.split source.toList).filterMap (·.token?)

/-- **The tokens of two texts on lines of their own** are those of the first and, on later
lines, those of the second. -/
theorem scan_joined {a b : String} (ha : (scan a).diagnostics = [])
    (hb : (scan b).diagnostics = []) :
    (scan (joined a b)).diagnostics = [] ∧
      ∃ us, inner (joined a b) = inner a ++ us ∧ Grammar.Relined (inner b) us := by
  have hsplit := Piece.split_joined (b := b) ha
  constructor
  · show (Piece.split (joined a b).toList).filterMap (·.diagnostic?) = []
    rw [hsplit, List.filterMap_append, List.append_eq_nil_iff]
    refine ⟨ha, List.filterMap_eq_nil_iff.mpr fun p hp => ?_⟩
    rcases List.mem_cons.mp hp with rfl | hp
    · rfl
    · obtain ⟨p', hp', rfl⟩ := List.mem_map.mp hp
      exact (p'.diagnostic?_moved _).mpr (List.filterMap_eq_nil_iff.mp hb p' hp')
  · refine ⟨_, ?_, Piece.relined_moved (Scan.feeds a.toList + 1) (Piece.split b.toList)⟩
    show (Piece.split (joined a b).toList).filterMap (·.token?) = _
    rw [hsplit, List.filterMap_append]
    rfl

/-! ## Programs -/

namespace Grammar

/-- Declarations behind declarations. -/
theorem Passage.Written.declarations_append {ss rs : List Stmt} {l room : Nat}
    {ts us : List Token} (h : Passage.Written (.declarations ss) l room ts)
    (hr : Passage.Written (.declarations rs) l room us) :
    Passage.Written (.declarations (ss ++ rs)) l room (ts ++ us) := by
  induction ss generalizing ts with
  | nil =>
    cases h
    exact hr
  | cons s ss ih =>
    cases h with
    | moreDeclarations hs hss =>
      rw [List.cons_append, List.append_assoc]
      exact .moreDeclarations hs (ih hss)

end Grammar

/-- What a text without faults in its tokens is read as. -/
theorem Program.ofTokens_scan_iff {room : Nat} {p : Program} (source : String) :
    Program.ofTokens room (scan source).tokens = ⟨p, []⟩ ↔
      Grammar.Passage.Written (.declarations p) 0 room (inner source) :=
  Program.ofTokens_iff (z := Token.endAt _) rfl fun _ ht => isEnd_of_mem_split ht

/-- **Two texts on lines of their own are read as the declarations of both**, those of the second
on later lines. -/
theorem Program.ofTokens_joined {room : Nat} {a b : String} {p q : Program}
    (ha : (scan a).diagnostics = []) (hb : (scan b).diagnostics = [])
    (hp : Program.ofTokens room (scan a).tokens = ⟨p, []⟩)
    (hq : Program.ofTokens room (scan b).tokens = ⟨q, []⟩) :
    ∃ q', Stmt.unlinedAll q' = Stmt.unlinedAll q ∧
      Program.ofTokens room (scan (joined a b)).tokens = ⟨p ++ q', []⟩ := by
  obtain ⟨-, us, hinner, hus⟩ := scan_joined ha hb
  have hpw := (Program.ofTokens_scan_iff a).mp hp
  obtain ⟨q', hq', hqw⟩ := ((Program.ofTokens_scan_iff b).mp hq).relined hus
  refine ⟨q', hq', (Program.ofTokens_scan_iff (joined a b)).mpr ?_⟩
  rw [hinner]
  exact hpw.declarations_append hqw

end LoxKit
