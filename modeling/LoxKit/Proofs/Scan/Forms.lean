import LoxKit.Scan

/-!
# The forms of pieces

A piece of a text is a comment, a number, a word and so on, each with an end of its own
(`Scan.Form`).  Exactly one form fits at each place, and cutting finds it (`Scan.lead_eq_iff`).

Where a piece ends, its own characters tell and the one or two behind it.  Of a letter it does not
matter there which one it is, and the end of the text looks like a line feed
(`Scan.Form.ahead`).
-/
namespace LoxKit
namespace Scan

/-! ## Characters -/

theorem isDigit_of_isLetter {c : Char} (h : isLetter c) : isDigit c = false := by
  simp only [isLetter, isDigit, Char.le_def, UInt32.le_iff_toNat_le, Bool.or_eq_true,
    Bool.and_eq_true, decide_eq_true_eq, beq_iff_eq, Bool.and_eq_false_iff,
    decide_eq_false_iff_not] at h ⊢
  rcases h with (h | h) | rfl
  · right
    have : '9'.val.toNat < 'A'.val.toNat := by decide
    omega
  · right
    have : '9'.val.toNat < 'a'.val.toNat := by decide
    omega
  · right
    decide

/-- Characters that a test tells apart are different. -/
theorem ne_of_test {p : Char → Bool} {c d : Char} (hc : p c) (hd : p d = false) : c ≠ d := by
  rintro rfl
  rw [hc] at hd
  cases hd

theorem isSpace_iff {c : Char} : isSpace c ↔ c = ' ' ∨ c = '\t' ∨ c = '\r' := by
  simp [isSpace, or_assoc]

/-- What forms a token with an equals sign behind it forms one without. -/
theorem withEqual?_of_single? {c : Char} (h : single? c = none) : withEqual? c = none := by
  unfold withEqual?
  split
  · cases h
  · cases h
  · cases h
  · cases h
  · rfl

/-! ## Forms -/

/-- **What the piece that begins with `c` is, and how far it goes.** -/
inductive Form (c : Char) (rest : List Char) : Role → Nat → Prop where
  | comment {n : Nat} : c = '/' → rest.head? = some '*' → closing? rest.tail = some n →
    Form c rest .comment (1 + n)
  | openComment : c = '/' → rest.head? = some '*' → closing? rest.tail = none →
    Form c rest (.fault .unterminatedComment) rest.length
  | line : c = '/' → rest.head? = some '/' → Form c rest .comment (run (· != '\n') rest)
  | number : isDigit c → Form c rest (.token .number)
      (run isDigit rest + fraction (rest.drop (run isDigit rest)))
  | string : c = '"' → run (· != '"') rest < rest.length →
    Form c rest (.token .string) (run (· != '"') rest + 1)
  | openString : c = '"' → ¬run (· != '"') rest < rest.length →
    Form c rest (.fault .unterminatedString) rest.length
  | word : isLetter c →
    Form c rest (.token (.ofWord (.ofList (c :: rest.take (run isWordChar rest)))))
      (run isWordChar rest)
  | feed : c = '\n' → Form c rest .blank 0
  | space : isSpace c → Form c rest .blank (run isSpace rest)
  | double {kind : TokenKind} : withEqual? c = some kind → rest.head? = some '=' →
    Form c rest (.token kind) 1
  | single {kind : TokenKind} : single? c = some kind →
    (c = '/' → rest.head? ≠ some '*' ∧ rest.head? ≠ some '/') →
    (withEqual? c = none ∨ rest.head? ≠ some '=') → Form c rest (.token kind) 0
  | unexpected : single? c = none → isDigit c = false → isLetter c = false → isSpace c = false →
    c ≠ '"' → c ≠ '\n' → Form c rest (.fault (.unexpected c)) 0

variable {c : Char} {rest : List Char} {role : Role} {n : Nat}

/-- Cutting finds a form. -/
theorem form_lead (c : Char) (rest : List Char) : Form c rest (lead c rest).1 (lead c rest).2 := by
  unfold lead
  split
  · rename_i h
    cases hclose : closing? rest.tail with
    | none => exact .openComment h.1 h.2 hclose
    | some n => exact .comment h.1 h.2 hclose
  · rename_i hopen
    split
    · rename_i h
      exact .line h.1 h.2
    · rename_i hline
      split
      · exact .number ‹_›
      · rename_i hdigit
        split
        · dsimp only
          split
          · exact .string ‹_› ‹_›
          · exact .openString ‹_› ‹_›
        · rename_i hquote
          split
          · exact .word ‹_›
          · rename_i hletter
            split
            · exact .feed ‹_›
            · rename_i hfeed
              split
              · exact .space ‹_›
              · rename_i hspace
                split
                · exact .double ‹_› ‹_›
                · rename_i hequal
                  split
                  · rename_i kind hsingle
                    refine .single hsingle (fun hc => ⟨fun h => hopen ⟨hc, h⟩,
                      fun h => hline ⟨hc, h⟩⟩) ?_
                    cases hwith : withEqual? c with
                    | none => exact .inl rfl
                    | some kind => exact .inr fun h => hequal kind hwith h
                  · simp only [Bool.not_eq_true] at hdigit hletter hspace
                    exact .unexpected ‹_› hdigit hletter hspace hquote hfeed

/-- No two forms fit at one place. -/
theorem Form.lead_eq (h : Form c rest role n) : lead c rest = (role, n) := by
  cases h with
  | comment hc hhead hclose | openComment hc hhead hclose => simp [lead, hc, hhead, hclose]
  | line hc hhead => simp [lead, hc, hhead]
  | number hc =>
    have hslash : c ≠ '/' := ne_of_test hc rfl
    simp [lead, hslash, hc]
  | string hc hinner | openString hc hinner =>
    subst hc
    simp [lead, isDigit, hinner]
  | word hc =>
    have hslash : c ≠ '/' := ne_of_test hc rfl
    have hquote : c ≠ '"' := ne_of_test hc rfl
    simp [lead, hslash, hquote, hc, isDigit_of_isLetter hc]
  | feed hc =>
    subst hc
    rfl
  | space hc => rcases isSpace_iff.mp hc with rfl | rfl | rfl <;> rfl
  | double hkind hhead =>
    unfold withEqual? at hkind
    split at hkind <;> cases hkind <;> simp [lead, hhead, isDigit, isLetter, isSpace, withEqual?]
  | single hkind hslash hequal =>
    unfold single? at hkind
    split at hkind <;> cases hkind <;>
      simp_all [lead, isDigit, isLetter, isSpace, withEqual?, single?]
  | unexpected hsingle hdigit hletter hspace hquote hfeed =>
    have hslash : c ≠ '/' := by
      rintro rfl
      cases hsingle
    simp [lead, hslash, hdigit, hquote, hletter, hfeed, hspace, withEqual?_of_single? hsingle,
      hsingle]

/-- **A piece has the form that fits.** -/
theorem lead_eq_iff : lead c rest = (role, n) ↔ Form c rest role n := by
  refine ⟨fun h => ?_, Form.lead_eq⟩
  have hform := form_lead c rest
  rwa [h] at hform

/-- A piece that begins with a letter is a word, which is told by its text. -/
theorem form_letter_iff {t cs : List Char} (hc : isLetter c) : Form c (t ++ cs) role t.length ↔
    run isWordChar (t ++ cs) = t.length ∧ role = .token (.ofWord (.ofList (c :: t))) := by
  rw [← lead_eq_iff, (@Form.word c (t ++ cs) hc).lead_eq, Prod.mk.injEq]
  constructor
  · rintro ⟨rfl, hrun⟩
    rw [hrun, List.take_left]
    exact ⟨rfl, rfl⟩
  · rintro ⟨hrun, rfl⟩
    rw [hrun, List.take_left]
    exact ⟨rfl, rfl⟩

/-- What the kind of a token comes from. -/
theorem Form.token_cases {t cs : List Char} {kind : TokenKind}
    (h : Form c (t ++ cs) (.token kind) t.length) :
    kind = .number ∨ kind = .string ∨ kind = .ofWord (.ofList (c :: t)) ∨
      withEqual? c = some kind ∨ single? c = some kind := by
  generalize hlength : t.length = n at h
  cases h with
  | number => exact .inl rfl
  | string => exact .inr (.inl rfl)
  | word =>
    rw [← hlength, List.take_left]
    exact .inr (.inr (.inl rfl))
  | double hkind => exact .inr (.inr (.inr (.inl hkind)))
  | single hkind => exact .inr (.inr (.inr (.inr hkind)))

/-! ## How far a piece goes -/

theorem run_le (p : Char → Bool) (cs : List Char) : run p cs ≤ cs.length :=
  (List.takeWhile_prefix p).length_le

theorem closing?_le {cs : List Char} {n : Nat} (h : closing? cs = some n) : n ≤ cs.length := by
  fun_induction closing? cs generalizing n with
  | case1 => cases h
  | case2 =>
    cases h
    simp
  | case3 c cs hnot ih =>
    obtain ⟨m, hm, rfl⟩ := Option.map_eq_some_iff.mp h
    exact Nat.succ_le_succ (ih hm)

theorem fraction_le (cs : List Char) : fraction cs ≤ cs.length := by
  unfold fraction
  split
  · have hrun := run_le isDigit ‹List Char›
    simp only [List.length_cons]
    split <;> omega
  · exact Nat.zero_le _

/-- **A piece lies within the text.** -/
theorem Form.le (h : Form c rest role n) : n ≤ rest.length := by
  cases h with
  | comment _ hhead hclose =>
    have hn := closing?_le hclose
    rcases rest with - | ⟨d, rest⟩
    · cases hhead
    · simp only [List.tail_cons, List.length_cons] at hn ⊢
      omega
  | openComment | openString => exact Nat.le_refl _
  | line | word | space => exact run_le ..
  | number =>
    have hwhole := run_le isDigit rest
    have hfraction := fraction_le (rest.drop (run isDigit rest))
    rw [List.length_drop] at hfraction
    omega
  | string _ hinner => exact hinner
  | feed | single | unexpected => exact Nat.zero_le _
  | double _ hhead =>
    rcases rest with - | ⟨d, rest⟩
    · cases hhead
    · exact Nat.succ_le_succ (Nat.zero_le _)

/-! ## What a piece sees behind itself -/

/-- **How a character looks to a piece in front of it**: of a letter it does not matter which one it
is, and the end of the text looks like a line feed. -/
def seen (x : Option Char) : Char :=
  let c := x.getD '\n'
  if isLetter c then 'a' else c

/-- A test for which a character is as it looks, and that a line feed fails. -/
structure Sighted (p : Char → Bool) : Prop where
  letter : ∀ c, isLetter c → p c = p 'a'
  feed : p '\n' = false

theorem sighted_isDigit : Sighted isDigit := ⟨fun _ => isDigit_of_isLetter, rfl⟩

theorem sighted_isWordChar : Sighted isWordChar :=
  ⟨fun c hc => by simp [isWordChar, hc, show isLetter 'a' from rfl], rfl⟩

theorem sighted_isSpace : Sighted isSpace := by
  refine ⟨fun c hc => ?_, rfl⟩
  rw [show isSpace 'a' = false from rfl, ← Bool.not_eq_true, isSpace_iff]
  rintro (rfl | rfl | rfl) <;> cases hc

theorem sighted_inLine : Sighted (· != '\n') :=
  ⟨fun _ hc => bne_iff_ne.mpr (ne_of_test hc rfl), rfl⟩

theorem Sighted.seen {p : Char → Bool} (hp : Sighted p) (x : Option Char) :
    p (seen x) = x.any p := by
  cases x with
  | none => exact hp.feed
  | some c =>
    by_cases hc : isLetter c
    · simp [Scan.seen, hc, hp.letter c hc]
    · simp [Scan.seen, hc]

/-- A character that is no letter is seen as it is. -/
theorem seen_eq_iff {x : Option Char} {d : Char} (hd : isLetter d = false) (hfeed : d ≠ '\n') :
    seen x = d ↔ x = some d := by
  cases x with
  | none => simpa [seen, show isLetter '\n' = false from rfl] using hfeed.symm
  | some c =>
    by_cases hc : isLetter c
    · have ha : 'a' ≠ d := ne_of_test (p := isLetter) rfl hd
      simp [seen, hc, ha, ne_of_test hc hd]
    · simp [seen, hc]

/-- **Texts that look alike to a piece in front of them**: a piece may look at the next character,
and a number at the one behind a point. -/
structure Ahead (cs cs' : List Char) : Prop where
  first : seen cs'.head? = seen cs.head?
  second : cs.head? = some '.' → seen cs'.tail.head? = seen cs.tail.head?

variable {p : Char → Bool} {t cs cs' : List Char}

theorem Ahead.refl (cs : List Char) : Ahead cs cs := ⟨rfl, fun _ => rfl⟩

/-- Behind a text that is all there, the next line begins. -/
theorem Ahead.feed (cs more : List Char) : Ahead cs (cs ++ '\n' :: more) := by
  rcases cs with - | ⟨c, - | ⟨d, cs⟩⟩
  · exact ⟨rfl, nofun⟩
  · exact ⟨rfl, fun _ => rfl⟩
  · exact ⟨rfl, fun _ => rfl⟩

theorem Ahead.append (t : List Char) (h : Ahead cs cs') : Ahead (t ++ cs) (t ++ cs') := by
  rcases t with - | ⟨c, - | ⟨d, t⟩⟩
  · exact h
  · exact ⟨rfl, fun _ => h.first⟩
  · exact ⟨rfl, fun _ => rfl⟩

theorem Ahead.head_iff (h : Ahead cs cs') {d : Char} (hd : isLetter d = false)
    (hfeed : d ≠ '\n') : cs'.head? = some d ↔ cs.head? = some d := by
  rw [← seen_eq_iff hd hfeed, ← seen_eq_iff hd hfeed, h.first]

/-- A run ends behind a text if the text passes the test and what follows does not. -/
theorem run_eq_length : run p (t ++ cs) = t.length ↔ (∀ c ∈ t, p c) ∧ cs.head?.any p = false := by
  induction t with
  | nil =>
    cases cs with
    | nil => simp [run]
    | cons c cs => by_cases hc : p c <;> simp [run, hc]
  | cons c t ih =>
    unfold run at ih ⊢
    by_cases hc : p c <;> simp [hc, ih]

/-- **A run ends where it ended** behind which the text looks alike. -/
theorem run_ahead (hp : Sighted p) (h : Ahead cs cs') (hrun : run p (t ++ cs) = t.length) :
    run p (t ++ cs') = t.length := by
  rw [run_eq_length] at hrun ⊢
  rwa [← hp.seen, h.first, hp.seen]

/-- A run that ends inside a text ends there whatever follows the text. -/
theorem run_inside (hrun : run p (t ++ cs) < t.length) : run p (t ++ cs') = run p (t ++ cs) := by
  induction t with
  | nil => cases hrun
  | cons c t ih =>
    unfold run at ih hrun ⊢
    by_cases hc : p c
    · simp only [List.cons_append, List.takeWhile_cons, hc, if_true, List.length_cons] at hrun ⊢
      rw [ih (Nat.lt_of_succ_lt_succ hrun)]
    · simp [hc]

/-- A comment that is closed stays closed. -/
theorem closing?_append {cs : List Char} {n : Nat} (h : closing? cs = some n)
    (more : List Char) : closing? (cs ++ more) = some n := by
  fun_induction closing? cs generalizing n with
  | case1 => cases h
  | case2 => exact h
  | case3 c cs hnot ih =>
    obtain ⟨m, hm, rfl⟩ := Option.map_eq_some_iff.mp h
    have hcs : cs ≠ [] := by
      rintro rfl
      cases hm
    obtain ⟨d, cs', rfl⟩ := List.exists_cons_of_ne_nil hcs
    rw [List.cons_append, closing?, ih hm]
    · rfl
    · intro more' hc heq
      rw [List.cons_append] at heq
      exact hnot cs' hc (by rw [(List.cons.inj heq).1])

/-- A comment that is closed in a text is closed there whatever follows. -/
theorem closing?_inside (h : closing? (t ++ cs) = some n) (hn : n ≤ t.length) :
    closing? (t ++ cs') = some n := by
  refine closing?_append ?_ cs'
  -- the recursion goes over the whole text, and takes the part that the comment is in along
  generalize hu : t ++ cs = u at h
  fun_induction closing? u generalizing t n with
  | case1 => cases h
  | case2 rest =>
    cases h
    rcases t with - | ⟨c, - | ⟨d, t⟩⟩
    · cases hn
    · simp at hn
    · simp only [List.cons_append, List.cons.injEq] at hu
      rw [hu.1, hu.2.1]
      rfl
  | case3 c rest hnot ih =>
    obtain ⟨m, hm, rfl⟩ := Option.map_eq_some_iff.mp h
    rcases t with - | ⟨d, t⟩
    · cases hn
    · obtain ⟨rfl, htail⟩ := List.cons.inj hu
      rw [closing?, ih (Nat.le_of_succ_le_succ hn) htail hm]
      · rfl
      · intro more hd heq
        rw [heq] at htail
        exact hnot _ hd htail.symm

/-- There is no fraction if there is no digit behind a point. -/
theorem fraction_eq_zero : fraction cs = 0 ↔
    (cs.head? = some '.' → isDigit (seen cs.tail.head?) = false) := by
  rw [sighted_isDigit.seen]
  rcases cs with - | ⟨c, - | ⟨d, cs⟩⟩
  · simp [fraction]
  · by_cases hc : c = '.' <;> simp [fraction, hc]
  · by_cases hc : c = '.'
    · subst hc
      by_cases hd : isDigit d <;> simp [fraction, hd]
    · simp [fraction, hc]

/-- **A fraction ends where it ended** behind which the text looks alike. -/
theorem fraction_ahead (h : Ahead cs cs') (hfraction : fraction (t ++ cs) = t.length) :
    fraction (t ++ cs') = t.length := by
  rcases t with - | ⟨c, - | ⟨d, t⟩⟩
  · rw [List.nil_append, List.length_nil, fraction_eq_zero] at hfraction ⊢
    intro hpoint
    have hpoint' := (h.head_iff rfl (by decide)).mp hpoint
    rw [h.second hpoint']
    exact hfraction hpoint'
  · -- a point and a digit are two characters
    exfalso
    rw [List.singleton_append] at hfraction
    unfold fraction at hfraction
    split at hfraction
    · split at hfraction <;> simp at hfraction
      omega
    · cases hfraction
  · by_cases hc : c = '.'
    · subst hc
      by_cases hd : isDigit d
      · simp only [List.cons_append, fraction, hd, if_true, List.length_cons] at hfraction ⊢
        rw [run_ahead sighted_isDigit h (by omega)]
        omega
      · simp [fraction, hd] at hfraction
    · simp [fraction, hc] at hfraction

/-- The digits of a number and its fraction end where they ended. -/
theorem number_ahead (h : Ahead cs cs')
    (hlength : run isDigit (t ++ cs) + fraction ((t ++ cs).drop (run isDigit (t ++ cs))) =
      t.length) :
    run isDigit (t ++ cs') + fraction ((t ++ cs').drop (run isDigit (t ++ cs'))) = t.length := by
  rcases Nat.lt_or_ge (run isDigit (t ++ cs)) t.length with hinside | hge
  · -- the fraction is what is left of the number behind the digits
    have hle := Nat.le_of_lt hinside
    rw [run_inside hinside, List.drop_append_of_le_length hle]
    rw [List.drop_append_of_le_length hle] at hlength
    have hfraction : fraction (t.drop (run isDigit (t ++ cs)) ++ cs) =
        (t.drop (run isDigit (t ++ cs))).length := by
      rw [List.length_drop]
      omega
    rw [fraction_ahead h hfraction, List.length_drop]
    omega
  · have hrun : run isDigit (t ++ cs) = t.length := by omega
    have hfraction : fraction ([] ++ cs) = ([] : List Char).length := by
      rw [hrun, List.drop_left] at hlength
      simpa using hlength
    rw [run_ahead sighted_isDigit h hrun, List.drop_left]
    exact congrArg (t.length + ·) (fraction_ahead h hfraction)

/-- **A piece that is no fault ends where it ended** if the text behind it looks alike. -/
theorem Form.ahead (h : Form c (t ++ cs) role t.length) (hrole : ∀ cause, role ≠ .fault cause)
    (hcs : Ahead cs cs') : Form c (t ++ cs') role t.length := by
  have hhead : ∀ d, isLetter d = false → d ≠ '\n' →
      ((t ++ cs').head? = some d ↔ (t ++ cs).head? = some d) := fun d => (hcs.append t).head_iff
  generalize hlength : t.length = n at h ⊢
  cases h with
  | comment hc hopen hclose =>
    -- a comment ends inside its piece, so nothing behind it matters
    rcases t with - | ⟨d, t⟩
    · rw [List.length_nil] at hlength
      omega
    · rw [List.cons_append, List.tail_cons] at hclose
      rw [List.length_cons] at hlength
      exact .comment hc ((hhead '*' rfl (by decide)).mpr hopen)
        (closing?_inside hclose (by omega))
  | openComment | openString | unexpected => exact absurd rfl (hrole _)
  | line hc hopen =>
    rw [← hlength, ← run_ahead sighted_inLine hcs hlength.symm]
    exact .line hc ((hhead '/' rfl (by decide)).mpr hopen)
  | number hc =>
    rw [← hlength, ← number_ahead hcs hlength.symm]
    exact .number hc
  | string hc hinner =>
    have hinside : run (· != '"') (t ++ cs) < t.length := by omega
    have hrun : run (· != '"') (t ++ cs') = run (· != '"') (t ++ cs) := run_inside hinside
    rw [← hrun]
    refine .string hc ?_
    rw [hrun, List.length_append]
    omega
  | word hc =>
    have hword := @Form.word c (t ++ cs') hc
    rw [run_ahead sighted_isWordChar hcs hlength.symm, List.take_left] at hword
    rw [← hlength, List.take_left]
    exact hword
  | feed hc => exact .feed hc
  | space hc =>
    rw [← hlength, ← run_ahead sighted_isSpace hcs hlength.symm]
    exact .space hc
  | double hkind hequal => exact .double hkind ((hhead '=' rfl (by decide)).mpr hequal)
  | single hkind hslash hequal =>
    exact .single hkind (fun hc => ⟨mt (hhead '*' rfl (by decide)).mp (hslash hc).1,
      mt (hhead '/' rfl (by decide)).mp (hslash hc).2⟩)
      (hequal.imp_right (mt (hhead '=' rfl (by decide)).mp))

end Scan
end LoxKit
