import LoxKit.Proofs.Machine.Faithful

/-!
# Runs are recounted faithfully

The evaluator with entries keeps a chronicle faithful (`Machine.recountsAt`), if the trees it walks
over are those of programs: what they define and assign are names, so that none of them is the
word by which a method knows its object or its superclass.

The proof follows the evaluator, by induction on its room: one lemma for each function, from
all of them with less room.
-/
namespace LoxKit

open Scope

theorem FunDecl.Shaped.params {d : FunDecl} (h : d.Shaped) : ∀ p ∈ d.params, p.IsName := by
  cases d
  exact h.2.1

/-- No parameter is the word by which a method knows its object. -/
theorem FunDecl.Shaped.get?_this {d : FunDecl} (h : d.Shaped) {α : Type} (vs : List α) :
    (Bindings.ofList ((d.params.map (·.lexeme)).zip vs)).get? thisName = none := by
  cases hv : (Bindings.ofList ((d.params.map (·.lexeme)).zip vs)).get? thisName with
  | none => rfl
  | some v =>
    obtain ⟨p, hp, hthis⟩ :=
      List.mem_map.mp (List.of_mem_zip (Bindings.mem_of_get?_ofList hv)).1
    exact absurd hthis (h.params p hp).1

@[simp] theorem ClassValue.head_of {σ : Type} (h : ClassHead σ) (s : Option (ClassValue σ)) :
    (ClassValue.of h s).head = h := by cases s <;> rfl

@[simp] theorem ClassValue.superclass?_of {σ : Type} (h : ClassHead σ)
    (s : Option (ClassValue σ)) : (ClassValue.of h s).superclass? = s := by cases s <;> rfl

namespace Noted

variable {n : Noted Entry}

/-- **A class that was just made of its declaration.** -/
theorem HomeOf.valueFrom {frame : FrameId} {site : ClassSite}
    {parent : Option (ClassValue FrameId)} (hhome : n.HomeOf frame site parent) {number : Nat}
    {name : String}
    (hdeclared : n.Declared site
      (.of ⟨number, name, Machine.methodTable frame site.methods⟩ parent))
    (hshaped : FunDecl.AllShaped site.methods) (hparent : ∀ c ∈ parent, n.ClassFrom c) :
    n.ValueFrom
      (.classValue (.of ⟨number, name, Machine.methodTable frame site.methods⟩ parent)) := by
  refine ClassValue.Each.of (fun x f hf => ?_) hparent
  obtain ⟨d, hd, rfl, rfl⟩ := Machine.methodTable_get? hf
  refine ⟨rfl, FunDecl.allShaped_iff.mp hshaped d hd, rfl, site, _, hdeclared, hd, ?_, ?_⟩
  · rw [ClassValue.head_of]
    exact hf
  · rw [ClassValue.superclass?_of]
    exact hhome

end Noted

namespace Machine

open Noted

/-- **The functions of the evaluator recount faithfully**, with so much room. -/
structure RecountsAt (turns room : Nat) : Prop where
  eval : ∀ e n, e.Shaped → Recounts n (tellEval turns room e) fun v n' => n'.ValueFrom v
  evalAll : ∀ es n, Expr.AllShaped es →
    Recounts n (tellEvalAll turns room es) fun vs n' => ∀ v ∈ vs, n'.ValueFrom v
  call : ∀ f vs n, n.ValueFrom f → (∀ v ∈ vs, n.ValueFrom v) → arity? f = some vs.length →
    Recounts n (tellCall turns room f vs) fun v n' => n'.ValueFrom v
  construct : ∀ c vs n, n.ClassFrom c → (∀ v ∈ vs, n.ValueFrom v) → c.arity = vs.length →
    Recounts n (tellConstruct turns room c vs) fun v n' => n'.ValueFrom v
  invoke : ∀ f vs n, n.FunctionFrom f → (∀ v ∈ vs, n.ValueFrom v) → f.decl.arity = vs.length →
    Recounts n (tellInvoke turns room f vs) fun v n' => n'.ValueFrom v ∧
      ∃ mid, Complete mid ∧ n'.notes = n.notes ++ .begun f vs :: (mid ++ [.ended f vs v])
  execAll : ∀ ss n, Stmt.AllShaped ss →
    Recounts n (tellExecAll turns room ss) fun c n' => n'.CompletionFrom c
  exec : ∀ s n, s.Shaped → Recounts n (tellExec turns room s) fun c n' => n'.CompletionFrom c

variable {turns room : Nat} {n : Noted Entry}

/-! ## Properties and classes -/

theorem recounts_property (room : Nat) {id : ObjectId} {c : ClassValue FrameId}
    (hobject : n.ValueFrom (.object id c)) (name : Token) :
    Recounts n (tellProperty room id c name) fun v n' => n'.ValueFrom v := by
  refine .get fun hn => ?_
  cases hfield : (n.machine.fields[id]?.getD .empty).get? name.lexeme with
  | some v =>
    refine .needing _ _ (.pure ?_)
    cases hb : n.machine.fields[id]? with
    | none =>
      rw [hb] at hfield
      cases hfield
    | some b =>
      rw [hb] at hfield
      exact hn.accounted.fields id b hb _ v hfield
  | none =>
    refine .needing _ _ ?_
    cases hmethod : c.method? name.lexeme with
    | none => exact .fail _ _
    | some g =>
      refine .bind (.bindMethod (hobject.2.method? hmethod).2 hobject ⟨id, c, rfl⟩) ?_
      intro f n' _ hf
      exact .pure hf.1

theorem recounts_superMethod (room : Nat) (r : Reference) (method : Token) :
    Recounts n (tellSuperMethod room r method) fun v n' => n'.ValueFrom v := by
  refine .bind (.used .super r) fun _ n₁ _ _ => .needing _ _ ?_
  cases r.hops with
  | none => exact .throw _
  | some hops =>
    refine .bind (.readAt _ _) ?_
    rintro parent _ - ⟨rfl, f, hparent⟩
    refine .bind (.readAt _ _) ?_
    rintro this _ - ⟨rfl, f', hthis⟩
    cases parent with
    | classValue c =>
      dsimp only
      cases hmethod : c.method? method.lexeme with
      | none => exact .fail _ _
      | some g =>
        refine .given fun hn => ?_
        have hc : ClassFrom _ c := hn.accounted.values f _ _ hparent
        -- what is bound to `this` is an object, since a method is bound to it
        obtain ⟨g', hb⟩ := hn.accounted.this f' this hthis
        refine .bind (.bindMethod (hc.method? hmethod).2 (hn.accounted.values f' _ this hthis)
          (hn.accounted.bound f' g' this hb).object) ?_
        intro f n' _ hf
        exact .pure hf.1
    | _ => exact .throw _

/-- The superclass of a class. -/
theorem recounts_superclass? (room : Nat) (s : Option Reference) :
    Recounts n (tellSuperclass? room s) fun parent n' =>
      ∀ c ∈ parent, n'.ClassFrom c := by
  cases s with
  | none => exact .pure nofun
  | some r =>
    refine .bind (.used .read r) fun _ n₁ _ _ => .needing _ _ (.bind (.readReference r) ?_)
    rintro v _ - ⟨rfl, hv⟩
    cases v with
    | classValue c => exact .pure (by rintro _ ⟨⟩; exact hv)
    | _ => exact .fail _ _

/-- **A class is declared**: its methods are at home where the declaration stands, or in a frame
there that binds the superclass. -/
theorem recounts_class (room : Nat) {name : Token} {s : Option Reference} {ms : List FunDecl}
    (hname : name.IsName) (hms : FunDecl.AllShaped ms) :
    Recounts n (tellClass room name s ms) fun _ _ => True := by
  refine .bind (recounts_superclass? room s) fun parent n₁ _ hparent => .needing _ _ ?_
  refine .bind (.define hname (v := .nil) trivial) fun _ n₂ hgoes₂ _ => .get fun hn₂ => ?_
  have hparent₂ : ∀ c ∈ parent, n₂.ClassFrom c :=
    fun c hc => (hparent c hc).later hgoes₂.later
  -- with a frame for the superclass or without, the rest is the same
  have hrest : ∀ (frame : FrameId) (n₃ : Noted Entry), n₂.Goes n₃ →
      n₃.HomeOf frame ⟨name, s, ms⟩ parent →
      Recounts n₃ (do
        Noting.lift (Run.need (if ms.isEmpty then Spare.make else 1 + Spare.make) room)
        let a ← get
        Noting.lift (modifyThe Machine fun m => { m with classCount := m.classCount + 1 })
        Telling.note fun _ => .declared ⟨name, s, ms⟩
          (.of ⟨a.machine.classCount, name.lexeme, methodTable frame ms⟩ parent)
        Noting.lift (Run.assignFrom n₂.machine.current name (.classValue
          (.of ⟨a.machine.classCount, name.lexeme, methodTable frame ms⟩ parent))))
        fun _ _ => True := by
    intro frame n₃ hgoes₃ hhome
    refine .needing _ _ (.get fun _ => ?_)
    refine .bind (.modify (g := fun m => { m with classCount := m.classCount + 1 }) (fun _ => rfl)
      (fun _ => rfl) fun _ => rfl) fun _ n₄ hgoes₄ _ => ?_
    refine .bind (.note (fun _ _ h => by cases h) trivial fun _ => trivial) ?_
    rintro _ n₅ hgoes₅ rfl
    have hlater := hgoes₃.later.trans (hgoes₄.later.trans hgoes₅.later)
    exact .assignFrom _ hname (((hhome.later hgoes₄.later).later hgoes₅.later).valueFrom
      (List.mem_append_right _ List.mem_cons_self) hms
      fun c hc => (hparent₂ c hc).later hlater)
  have hhere := hn₂.accounted.current
  cases parent with
  | none => exact hrest _ n₂ hn₂.goes (hhere.homeOf _ none)
  | some c =>
    have hadmits : n₂.Admits (.event (.opened n₂.machine.frames.frames.size
        (.parent ⟨name, s, ms⟩))) (.parent ⟨name, s, ms⟩) n₂.machine.current
        (.ofList [(superName, .classValue c)]) := by
      refine .ofOpening (fun _ h => by cases h) hhere.live (fun x v hv => ?_)
        (fun g i hb => absurd hb (hhere.unbound g i)) (Bindings.get?_singleton ..)
      obtain ⟨-, rfl⟩ := Bindings.of_get?_singleton hv
      exact hparent₂ c rfl
    refine .needing _ _ (.bind (.newFrame fun _ => hadmits) ?_)
    rintro _ _ hgoes₃ ⟨rfl, rfl⟩
    exact hrest _ _ hgoes₃ (hadmits.homeOf hn₂.accounted)

/-! ## Expressions -/

namespace RecountsAt

theorem eval_succ (h : RecountsAt turns room) (e : Expr) (n : Noted Entry) (he : e.Shaped) :
    Recounts n (tellEval turns (room + 1) e) fun v n' => n'.ValueFrom v := by
  cases e with
  | literal v => exact .pure (valueFrom_ofLiteral v)
  | group e => exact h.eval e n he
  | name r | self r =>
    refine .bind (.used _ r) fun _ n₁ _ _ => .needing _ _ ((Recounts.readReference r).mono ?_)
    rintro v _ - ⟨rfl, hv⟩
    exact hv
  | assign r e =>
    refine .bind (.used _ r) fun _ n₁ _ _ => .bind (h.eval e n₁ he.2) fun v n₂ _ hv => ?_
    refine .needing _ _ (.bind (.stored r) fun _ n₃ hgoes₃ _ => ?_)
    refine .bind (.writeReference he.1 (hv.later hgoes₃.later)) fun _ n₄ hgoes₄ _ => ?_
    exact .pure ((hv.later hgoes₃.later).later hgoes₄.later)
  | unary op e =>
    refine .bind (h.eval e n he.2) fun v n₁ _ _ => .needing _ _ (.ofExcept fun a ha => ?_)
    exact valueFrom_of_plain (Operator.unary_plain ha)
  | binary l op r =>
    refine .bind (h.eval l n he.2.1) fun a n₁ _ _ => .bind (h.eval r n₁ he.2.2) fun b n₂ _ hb => ?_
    refine .needing _ _ (.ofExcept fun v hv => ?_)
    rcases Operator.binary_plain hv with rfl | hplain
    · exact hb
    · exact valueFrom_of_plain hplain
  | logical l op r =>
    refine .bind (h.eval l n he.1) fun a n₁ _ ha => .needing _ _ ?_
    exact .ite (fun _ => .pure ha) fun _ => h.eval r n₁ he.2
  | conditional t y e =>
    refine .bind (h.eval t n he.1) fun a n₁ _ _ => .needing _ _ ?_
    exact .ite (fun _ => h.eval y n₁ he.2.1) fun _ => h.eval e n₁ he.2.2
  | call f paren args =>
    refine .bind (h.eval f n he.1) fun callee n₁ _ hcallee => ?_
    refine .bind (h.evalAll args n₁ he.2) fun values n₂ hgoes₂ hvalues => .needing _ _ ?_
    cases harity : arity? callee with
    | none => exact .fail _ _
    | some count =>
      refine .ite (fun _ => .fail _ _) fun hcount => ?_
      refine .bind (.modify (g := fun m => { m with line := paren.line }) (fun _ => rfl)
        (fun _ => rfl) fun _ => rfl) fun _ n₃ hgoes₃ _ => ?_
      refine h.call callee values n₃ ((hcallee.later hgoes₂.later).later hgoes₃.later)
        (fun v hv => (hvalues v hv).later hgoes₃.later) ?_
      rw [harity, Decidable.not_not.mp hcount]
  | get o p =>
    refine .bind (h.eval o n he) fun v n₁ _ hv => ?_
    cases v with
    | object id c => exact recounts_property room hv p
    | _ => exact .fail _ _
  | set o p e =>
    refine .bind (h.eval o n he.1) fun v n₁ _ _ => ?_
    cases v with
    | object id c =>
      refine .bind (h.eval e n₁ he.2) fun v n₂ _ hv => .needing _ _ ?_
      refine .bind (.setField id p.lexeme hv) fun _ n₃ hgoes₃ _ => ?_
      exact .pure (hv.later hgoes₃.later)
    | _ => exact .fail _ _
  | super r m => exact recounts_superMethod room r m

theorem evalAll_succ (h : RecountsAt turns room) (es : List Expr) (n : Noted Entry)
    (hes : Expr.AllShaped es) :
    Recounts n (tellEvalAll turns (room + 1) es) fun vs n' => ∀ v ∈ vs, n'.ValueFrom v := by
  show Recounts n (es.mapM (tellEval turns room)) fun vs n' => ∀ v ∈ vs, n'.ValueFrom v
  induction es generalizing n with
  | nil =>
    rw [List.mapM_nil]
    exact .pure (List.forall_mem_nil _)
  | cons e es ih =>
    rw [List.mapM_cons]
    refine .bind (h.eval e n hes.1) fun v n₁ _ hv => .bind (ih n₁ hes.2) fun vs n₂ hgoes₂ hvs => ?_
    refine .pure fun u hu => ?_
    rcases List.mem_cons.mp hu with rfl | hu
    · exact hv.later hgoes₂.later
    · exact hvs u hu

/-! ## Calls -/

theorem call_succ (h : RecountsAt turns room) (f : Value FrameId) (vs : List (Value FrameId))
    (n : Noted Entry) (hf : n.ValueFrom f) (hvs : ∀ v ∈ vs, n.ValueFrom v)
    (harity : arity? f = some vs.length) :
    Recounts n (tellCall turns (room + 1) f vs) fun v n' => n'.ValueFrom v := by
  cases f with
  | function f =>
    exact (h.invoke f vs n hf hvs (Option.some.inj harity)).mono fun v n' _ hv => hv.1
  | native f =>
    cases f
    exact .needing _ _ .readClock
  | classValue c => exact h.construct c vs n hf hvs (Option.some.inj harity)
  | _ => cases harity

/-- **The call of a class** makes an object, and calls the initializer once if there is one. -/
theorem construct_succ (h : RecountsAt turns room) (c : ClassValue FrameId)
    (vs : List (Value FrameId)) (n : Noted Entry) (hc : n.ClassFrom c)
    (hvs : ∀ v ∈ vs, n.ValueFrom v) (harity : c.arity = vs.length) :
    Recounts n (tellConstruct turns (room + 1) c vs) fun v n' => n'.ValueFrom v := by
  have hnoted : n.Later { n with notes := n.notes ++ [.making c vs n.machine] } :=
    .note fun _ _ he => by cases he
  refine (Recounts.between (fun _ _ _ he => by cases he) (fun _ _ _ he => by cases he)
    (fun m v mid hmid => .construction c vs m v hmid .nil)
    (fun hn => ⟨hn.accounted, harity⟩) ?_).mono fun v n' _ hv => hv.1
  refine .needing _ _ (.bind (.newObject (hc.later hnoted)) ?_)
  rintro object n₂ hgoes₂ ⟨hnotes₂, rfl, hobject⟩
  have hlater₂ := hnoted.trans hgoes₂.later
  cases hinit : c.initializer? with
  | none =>
    refine .pure ⟨⟨n.notes, n.machine, [], hnotes₂, rfl, ?_⟩, hobject⟩
    rw [hinit]
  | some g =>
    obtain ⟨hname, hg⟩ := (hc.later hlater₂).method? hinit
    refine .needing _ _ (.bind (.bindMethod hg hobject ⟨_, _, rfl⟩) ?_)
    rintro _ n₃ hgoes₃ ⟨hf, frame, rfl, hnotes₃⟩
    refine .bind (h.invoke _ vs n₃ hf
      (fun v hv => ((hvs v hv).later hlater₂).later hgoes₃.later) ?_) ?_
    · rw [← harity, ClassValue.arity, hinit]
      rfl
    · rintro w n₄ hgoes₄ ⟨-, mid, hmid, hnotes₄⟩
      refine .pure ⟨?_, (hobject.later hgoes₃.later).later hgoes₄.later⟩
      -- the initializer is bound to the object, so its call has yielded the object
      have hyielded := hgoes₄.faithful.right (n₃.notes ++ .begun { g with home := frame } vs :: mid)
        (.ended { g with home := frame } vs w) [] (by rw [hnotes₄]; simp)
      obtain ⟨-, -, -, hw⟩ := hyielded.method g (.object n.machine.fields.size c)
        (by rw [hnotes₃]; simp)
      cases hw (beq_iff_eq.mpr hname)
      have hnotes : n₄.notes = n.notes ++ .making c vs n.machine ::
          .bound frame g (.object n.machine.fields.size c) ::
          .begun { g with home := frame } vs ::
            (mid ++ [.ended { g with home := frame } vs (.object n.machine.fields.size c)]) := by
        rw [hnotes₄, hnotes₃, hnotes₂]
        simp
      refine ⟨n.notes, n.machine, _, hnotes, rfl, ?_⟩
      rw [hinit]
      exact ⟨frame, mid, hmid, rfl⟩

theorem invoke_succ (h : RecountsAt turns room) (f : Closure FrameId) (vs : List (Value FrameId))
    (n : Noted Entry) (hf : n.FunctionFrom f) (hvs : ∀ v ∈ vs, n.ValueFrom v)
    (harity : f.decl.arity = vs.length) :
    Recounts n (tellInvoke turns (room + 1) f vs) fun v n' => n'.ValueFrom v ∧
      ∃ mid, Complete mid ∧ n'.notes = n.notes ++ .begun f vs :: (mid ++ [.ended f vs v]) := by
  have hnoted : n.Later { n with notes := n.notes ++ [.begun f vs] } :=
    .note fun _ _ he => by cases he
  refine .between (fun _ _ _ he => by cases he) (fun _ _ _ he => by cases he)
    (fun m v mid hmid => .call f vs v hmid .nil) (fun _ => harity) ?_
  have hf₁ := hf.later hnoted
  -- a function that is at home in the frame of an object is a copy of the method bound there, so
  -- the frame of its call is one for this method
  have hadmits := Admits.ofOpening (o := .call f.decl)
    (b := .ofList ((f.decl.params.map (·.lexeme)).zip vs)) (fun _ he => by cases he) hf₁.live
    (fun x v hv => (hvs v (List.of_mem_zip (Bindings.mem_of_get?_ofList hv)).2).later hnoted)
    (fun g i hb => by rw [hf₁.copy g i hb]) (hf.shaped.get?_this vs)
  refine .needing _ _ (.given fun hn₁ => .bind (.newFrame fun _ => hadmits) ?_)
  rintro frame n₂ hgoes₂ ⟨rfl, rfl⟩
  have hframe := hadmits.ordinary hn₁.accounted (fun _ he => by cases he) fun _ he => by cases he
  refine .bind (.inFrame hframe (h.execAll f.decl.body _ hf.shaped.body)) fun c n₃ hgoes₃ hc => ?_
  exact .callResult room ((hf₁.later hgoes₂.later).later hgoes₃.later) hc

/-! ## Statements -/

theorem execAll_succ (h : RecountsAt turns room) (ss : List Stmt) (n : Noted Entry)
    (hss : Stmt.AllShaped ss) :
    Recounts n (tellExecAll turns (room + 1) ss) fun c n' => n'.CompletionFrom c := by
  show Recounts n (Run.untilLeft (tellExec turns room) ss) fun c n' => n'.CompletionFrom c
  induction ss generalizing n with
  | nil => exact .pure trivial
  | cons s ss ih =>
    refine .bind (h.exec s n hss.1) fun c n₁ _ hc => ?_
    cases c with
    | normal => exact ih n₁ hss.2
    | leave => exact .pure trivial
    | giveBack v => exact .pure hc

theorem exec_succ (h : RecountsAt turns room) (s : Stmt) (n : Noted Entry) (hs : s.Shaped) :
    Recounts n (tellExec turns (room + 1) s) fun c n' => n'.CompletionFrom c := by
  cases s with
  | expression e => exact .bind (h.eval e n hs) fun _ _ _ _ => .pure trivial
  | print e =>
    refine .bind (h.eval e n hs) fun v n₁ _ _ => .needing _ _ ?_
    exact .bind (.modify (g := (·.write (v.render ++ "\n"))) (fun _ => rfl) (fun _ => rfl)
      fun _ => rfl) fun _ _ _ _ => .pure trivial
  | var x e =>
    cases e with
    | none =>
      exact .needing _ _ (.bind (.define hs.1 (v := .nil) trivial) fun _ _ _ _ => .pure trivial)
    | some e =>
      refine .bind (h.eval e n (hs.2 e rfl)) fun v n₁ _ hv => .needing _ _ ?_
      exact .bind (.define hs.1 hv) fun _ _ _ _ => .pure trivial
  | block body =>
    refine .needing _ _ (.get fun hn => ?_)
    have hhere := hn.accounted.current
    have hadmits := Admits.ofOpening (o := .block body) (b := .empty) (fun _ he => by cases he)
      hhere.live (fun _ _ hv => by cases hv) (fun g i hb => absurd hb (hhere.unbound g i)) rfl
    refine .bind (.newFrame fun _ => hadmits) ?_
    rintro frame n₁ - ⟨rfl, rfl⟩
    exact .inFrame (hadmits.ordinary hn.accounted (fun _ he => by cases he)
      fun _ he => by cases he) (h.execAll body _ hs)
  | branch t y e =>
    cases e with
    | none =>
      refine .bind (h.eval t n hs.1) fun v n₁ _ _ => .needing _ _ ?_
      exact .ite (fun _ => h.exec y n₁ hs.2.2) fun _ => .pure trivial
    | some e =>
      refine .bind (h.eval t n hs.1) fun v n₁ _ _ => .needing _ _ ?_
      exact .ite (fun _ => h.exec y n₁ hs.2.1.2) fun _ => h.exec e n₁ hs.2.2.2
  | loop t body =>
    refine .repeatWhile (fun n => ?_) (fun n => h.exec body n hs.2.2) turns n
    exact .bind (h.eval t n hs.1) fun _ _ _ _ => .needing _ _ (.pure trivial)
  | leave k => exact .pure trivial
  | giveBack k e =>
    cases e with
    | none => exact .needing _ _ (.pure trivial)
    | some e => exact .bind (h.eval e n (hs e rfl)) fun v n₁ _ hv => .needing _ _ (.pure hv)
  | function d =>
    refine .needing _ _ (.get fun hn => ?_)
    have hhere := hn.accounted.current
    have hd : n.ValueFrom (.function ⟨d, n.machine.current, false⟩) :=
      ⟨hhere.live, hs, fun g i hb => absurd hb (hhere.unbound g i), fun hi => by cases hi⟩
    exact .bind (.define (FunDecl.Shaped.name hs) hd) fun _ _ _ _ => .pure trivial
  | classDecl x s ms =>
    exact .needing _ _ (.bind (recounts_class _ hs.1 hs.2.2) fun _ _ _ _ => .pure trivial)

end RecountsAt

/-- **The evaluator recounts faithfully.** -/
theorem recountsAt (turns room : Nat) : RecountsAt turns room := by
  induction room with
  | zero =>
    exact ⟨fun _ _ _ => .throw _, fun _ _ _ => .throw _, fun _ _ _ _ _ _ => .throw _,
      fun _ _ _ _ _ _ => .throw _, fun _ _ _ _ _ _ => .throw _, fun _ _ _ => .throw _,
      fun _ _ _ => .throw _⟩
  | succ room h =>
    exact ⟨h.eval_succ, h.evalAll_succ, h.call_succ, h.construct_succ, h.invoke_succ,
      h.execAll_succ, h.exec_succ⟩

/-- **A program is recounted faithfully.** -/
theorem recounts_tellRunAll (turns room : Nat) (p : List Stmt) (n : Noted Entry)
    (hp : Stmt.AllShaped p) :
    Recounts n (runAll (tellExec turns room) p) fun _ _ => True := by
  induction p generalizing n with
  | nil => exact .pure trivial
  | cons s p ih =>
    refine .bind ((recountsAt turns room).exec s n hp.1) fun c n₁ _ _ => ?_
    cases c with
    | giveBack v => exact .pure trivial
    | normal | leave => exact ih n₁ hp.2

end Machine
end LoxKit
