import LoxKit.Proofs.Machine.Tracks

/-!
# Runs along trails

Every step of the evaluator takes an orderly heap along a trail, whether it yields something or
fails (`Machine.tracksAt`), if the trees it walks over are those of programs: what they define and
assign are names, so that nothing is bound in the frame of a method or of a superclass.  Resolution
is of no account here.

The proof follows the evaluator, by induction on its room: one lemma for each function, from all of
them with less room.
-/
namespace LoxKit
namespace Machine

open Heap

/-- **The functions of the evaluator go along trails**, with so much room. -/
structure TracksAt (turns room : Nat) : Prop where
  eval : ∀ e (h : Heap), e.Shaped → h.Tracks (eval turns room e) fun v h' => h'.Has v
  evalAll : ∀ es (h : Heap), Expr.AllShaped es →
    h.Tracks (evalAll turns room es) fun vs h' => ∀ v ∈ vs, h'.Has v
  call : ∀ f vs (h : Heap), h.Has f → (∀ v ∈ vs, h.Has v) →
    h.Tracks (call turns room f vs) fun v h' => h'.Has v
  construct : ∀ c vs (h : Heap), c ∈ h.classes → (∀ v ∈ vs, h.Has v) →
    h.Tracks (construct turns room c vs) fun v h' => h'.Has v
  invoke : ∀ f vs (h : Heap), h.HasFunction f → (∀ v ∈ vs, h.Has v) →
    h.Tracks (invoke turns room f vs) fun v h' => h'.Has v
  execAll : ∀ ss (h : Heap), Stmt.AllShaped ss →
    h.Tracks (execAll turns room ss) fun c h' => h'.HasCompletion c
  exec : ∀ s (h : Heap), s.Shaped → h.Tracks (exec turns room s) fun c h' => h'.HasCompletion c

variable {turns room : Nat} {h : Heap}

/-! ## Properties and classes -/

theorem tracks_property (room : Nat) (id : ObjectId) {c : ClassValue FrameId}
    (hc : c ∈ h.classes) (name : Token) :
    h.Tracks (property room id c name) fun v h' => h'.Has v := by
  refine .get fun ho => ?_
  cases hfield : (h.machine.fields[id]?.getD .empty).get? name.lexeme with
  | some v =>
    refine .needing _ _ (.pure ?_)
    cases hb : h.machine.fields[id]? with
    | none =>
      rw [hb] at hfield
      cases hfield
    | some b =>
      rw [hb] at hfield
      exact ho.fields id b hb _ v hfield
  | none =>
    refine .needing _ _ ?_
    cases hmethod : c.method? name.lexeme with
    | none => exact .fail _ _
    | some f =>
      have hthis : h.Has (.object id c) := hc
      exact .bind (.bindMethod (ho.method? hc hmethod) hthis) fun g h' _ hg => .pure hg

theorem tracks_superMethod (room : Nat) (r : Reference) (method : Token) :
    h.Tracks (superMethod room r method) fun v h' => h'.Has v := by
  refine .needing _ _ ?_
  cases r.hops with
  | none => exact .throw _
  | some hops =>
    refine .bind (.readAt _ _) fun parent h₁ _ hparent => ?_
    refine .bind (.readAt _ _) fun this h₂ hlasts₂ hthis => .given fun ho₂ => ?_
    cases parent with
    | classValue c =>
      dsimp only
      cases hmethod : c.method? method.lexeme with
      | none => exact .fail _ _
      | some f =>
        have hc : c ∈ h₂.classes := hparent.lasts hlasts₂
        exact .bind (.bindMethod (ho₂.method? hc hmethod) hthis) fun g h' _ hg => .pure hg
    | _ => exact .throw _

/-- A superclass is a class of the heap. -/
theorem tracks_superclass? (room : Nat) (s : Option Reference) :
    h.Tracks (superclass? room s) fun parent h' => ∀ p ∈ parent, p ∈ h'.classes := by
  cases s with
  | none => exact .pure (fun _ hp => by cases hp)
  | some r =>
    refine .needing _ _ (.bind (.readReference r) fun v h' _ hv => ?_)
    cases v with
    | classValue c => exact .pure (by rintro _ ⟨⟩; exact hv)
    | _ => exact .fail _ _

/-- **A class is made**, and it is bound to its name after that. -/
theorem tracks_makeClass (room here : Nat) {frame : FrameId} {name : Token} {ms : List FunDecl}
    {parent : Option (ClassValue FrameId)} (hname : name.IsName) (hms : FunDecl.AllShaped ms)
    (hframe : frame < h.machine.frames.frames.size) (hparent : ∀ p ∈ parent, p ∈ h.classes) :
    h.Tracks (do
      Run.need (if ms.isEmpty then Spare.make else 1 + Spare.make) room
      let number := (← get).classCount
      modify fun m => { m with classCount := m.classCount + 1 }
      let head : ClassHead FrameId := ⟨number, name.lexeme, methodTable frame ms⟩
      Run.assignFrom here name (.classValue (.of head parent))) fun _ _ => True := by
  refine .needing _ _ (.get fun _ => ?_)
  let head : ClassHead FrameId := ⟨h.machine.classCount, name.lexeme, methodTable frame ms⟩
  have hadmits : h.AdmitsClass head parent := by
    refine ⟨rfl, hparent, fun x f hf => ?_⟩
    obtain ⟨d, hd, -, rfl⟩ := methodTable_get? hf
    exact ⟨hframe, FunDecl.allShaped_iff.mp hms d hd⟩
  refine .bind (Q := fun _ h' => ClassValue.of head parent ∈ h'.classes)
    (.modify (fun _ => .newClass hadmits) (List.mem_append_right _ List.mem_cons_self)) ?_
  intro _ h' _ hclass
  have hvalue : h'.Has (.classValue (.of head parent)) := hclass
  exact .assignFrom here hname hvalue

/-- **A class is declared**: its methods are at home where the declaration stands, or in a frame
there that binds the superclass and nothing else. -/
theorem tracks_declareClass (room : Nat) {name : Token} {s : Option Reference}
    {ms : List FunDecl} (hname : name.IsName) (hms : FunDecl.AllShaped ms) :
    h.Tracks (declareClass room name s ms) fun _ _ => True := by
  refine .bind (tracks_superclass? room s) fun parent h₁ _ hparent => .needing _ _ ?_
  refine .bind (.define hname (v := .nil) trivial) fun _ h₂ hlasts₂ _ => .get fun ho₂ => ?_
  have hparent₂ : ∀ p ∈ parent, p ∈ h₂.classes :=
    fun p hp => hlasts₂.classes.subset (hparent p hp)
  cases parent with
  | none =>
    exact tracks_makeClass room h₂.machine.current hname hms ho₂.current.live hparent₂
  | some c =>
    have hvalue : h₂.Has (.classValue c) := hparent₂ c rfl
    refine .needing _ _ (.bind (.newFrame ho₂.current.live (admits_singleton hvalue _)) ?_)
    rintro frame h₃ hlasts₃ ⟨hframe, -⟩
    exact tracks_makeClass room h₂.machine.current hname hms hframe
      fun p hp => hlasts₃.classes.subset (hparent₂ p hp)

/-! ## Expressions -/

namespace TracksAt

theorem eval_succ (H : TracksAt turns room) (e : Expr) (h : Heap) (he : e.Shaped) :
    h.Tracks (Machine.eval turns (room + 1) e) fun v h' => h'.Has v := by
  cases e with
  | literal v => exact .pure (has_ofLiteral v)
  | group e => exact H.eval e h he
  | name r | self r => exact .needing _ _ (.readReference r)
  | assign r e =>
    refine .bind (H.eval e h he.2) fun v h₁ _ hv => .needing _ _ ?_
    exact .bind (.writeReference he.1 hv) fun _ h₂ hlasts₂ _ => .pure (hv.lasts hlasts₂)
  | unary op e =>
    refine .bind (H.eval e h he.2) fun v h₁ _ _ => .needing _ _ (.ofExcept fun a ha => ?_)
    exact has_of_plain (Operator.unary_plain ha)
  | binary l op r =>
    refine .bind (H.eval l h he.2.1) fun a h₁ _ _ => .bind (H.eval r h₁ he.2.2) fun b h₂ _ hb => ?_
    refine .needing _ _ (.ofExcept fun v hv => ?_)
    rcases Operator.binary_plain hv with rfl | hplain
    · exact hb
    · exact has_of_plain hplain
  | logical l op r =>
    refine .bind (H.eval l h he.1) fun a h₁ _ ha => .needing _ _ ?_
    exact .ite (fun _ => .pure ha) fun _ => H.eval r h₁ he.2
  | conditional t y n =>
    refine .bind (H.eval t h he.1) fun a h₁ _ _ => .needing _ _ ?_
    exact .ite (fun _ => H.eval y h₁ he.2.1) fun _ => H.eval n h₁ he.2.2
  | call f paren args =>
    refine .bind (H.eval f h he.1) fun callee h₁ _ hcallee => ?_
    refine .bind (H.evalAll args h₁ he.2) fun values h₂ hlasts₂ hvalues => .needing _ _ ?_
    cases arity? callee with
    | none => exact .fail _ _
    | some n =>
      refine .ite (fun _ => .fail _ _) fun _ => ?_
      refine .bind (.aside (g := fun m => { m with line := paren.line }) (fun _ => rfl)
        (fun _ => rfl) (fun _ => rfl) fun _ => rfl) fun _ h₃ hlasts₃ _ => ?_
      exact H.call callee values h₃ ((hcallee.lasts hlasts₂).lasts hlasts₃)
        fun v hv => (hvalues v hv).lasts hlasts₃
  | get o p =>
    refine .bind (H.eval o h he) fun v h₁ _ hv => ?_
    cases v with
    | object id c => exact tracks_property room id hv p
    | _ => exact .fail _ _
  | set o p e =>
    refine .bind (H.eval o h he.1) fun v h₁ _ _ => ?_
    cases v with
    | object id c =>
      refine .bind (H.eval e h₁ he.2) fun v h₂ _ hv => .needing _ _ ?_
      exact .bind (.setField id p.lexeme hv) fun _ h₃ hlasts₃ _ => .pure (hv.lasts hlasts₃)
    | _ => exact .fail _ _
  | super r m => exact tracks_superMethod room r m

theorem evalAll_succ (H : TracksAt turns room) (es : List Expr) (h : Heap)
    (hes : Expr.AllShaped es) :
    h.Tracks (Machine.evalAll turns (room + 1) es) fun vs h' => ∀ v ∈ vs, h'.Has v := by
  show h.Tracks (es.mapM (Machine.eval turns room)) fun vs h' => ∀ v ∈ vs, h'.Has v
  induction es generalizing h with
  | nil =>
    rw [List.mapM_nil]
    exact .pure (List.forall_mem_nil _)
  | cons e es ih =>
    rw [List.mapM_cons]
    refine .bind (H.eval e h hes.1) fun v h₁ _ hv => .bind (ih h₁ hes.2) fun vs h₂ hlasts₂ hvs => ?_
    exact .pure (List.forall_mem_cons.mpr ⟨hv.lasts hlasts₂, hvs⟩)

/-! ## Calls -/

theorem call_succ (H : TracksAt turns room) (f : Value FrameId) (vs : List (Value FrameId))
    (h : Heap) (hf : h.Has f) (hvs : ∀ v ∈ vs, h.Has v) :
    h.Tracks (Machine.call turns (room + 1) f vs) fun v h' => h'.Has v := by
  cases f with
  | function f => exact H.invoke f vs h hf hvs
  | native f =>
    cases f
    exact .needing _ _ .readClock
  | classValue c => exact H.construct c vs h hf hvs
  | _ => exact .pure trivial

theorem construct_succ (H : TracksAt turns room) (c : ClassValue FrameId)
    (vs : List (Value FrameId)) (h : Heap) (hc : c ∈ h.classes) (hvs : ∀ v ∈ vs, h.Has v) :
    h.Tracks (Machine.construct turns (room + 1) c vs) fun v h' => h'.Has v := by
  refine .needing _ _ (.bind (.newObject hc) fun object h₁ hlasts₁ hobject => .given fun ho₁ => ?_)
  cases hinit : c.initializer? with
  | none => exact .pure hobject
  | some f =>
    have hf : h₁.HasFunction f := ho₁.method? (hlasts₁.classes.subset hc) hinit
    refine .needing _ _ (.bind (.bindMethod hf hobject) fun g h₂ hlasts₂ hg => ?_)
    refine .bind (H.invoke g vs h₂ hg fun v hv => ((hvs v hv).lasts hlasts₁).lasts hlasts₂) ?_
    exact fun _ h₃ hlasts₃ _ => .pure ((hobject.lasts hlasts₂).lasts hlasts₃)

theorem invoke_succ (H : TracksAt turns room) (f : Closure FrameId) (vs : List (Value FrameId))
    (h : Heap) (hf : h.HasFunction f) (hvs : ∀ v ∈ vs, h.Has v) :
    h.Tracks (Machine.invoke turns (room + 1) f vs) fun v h' => h'.Has v := by
  have hplain (x : String) (hx : Hidden x) := hf.shaped.contains_params vs hx
  refine .needing _ _ (.bind (.newFrame hf.live (admits_of_plain (fun x v hv => ?_) hplain)) ?_)
  · exact hvs v (List.of_mem_zip (Bindings.mem_of_get?_ofList hv)).2
  · rintro frame h₁ - ⟨-, hordinary⟩
    refine .bind (.inFrame (hordinary hplain) fun h' _ =>
      H.execAll f.decl.body h' hf.shaped.body) fun c h₂ _ hc => ?_
    exact .callResult room f hc

/-! ## Statements -/

theorem execAll_succ (H : TracksAt turns room) (ss : List Stmt) (h : Heap)
    (hss : Stmt.AllShaped ss) :
    h.Tracks (Machine.execAll turns (room + 1) ss) fun c h' => h'.HasCompletion c := by
  show h.Tracks (Run.untilLeft (Machine.exec turns room) ss) fun c h' => h'.HasCompletion c
  induction ss generalizing h with
  | nil => exact .pure trivial
  | cons s ss ih =>
    refine .bind (H.exec s h hss.1) fun c h₁ _ hc => ?_
    cases c with
    | normal => exact ih h₁ hss.2
    | leave => exact .pure trivial
    | giveBack v => exact .pure hc

theorem exec_succ (H : TracksAt turns room) (s : Stmt) (h : Heap) (hs : s.Shaped) :
    h.Tracks (Machine.exec turns (room + 1) s) fun c h' => h'.HasCompletion c := by
  cases s with
  | expression e => exact .bind (H.eval e h hs) fun _ _ _ _ => .pure trivial
  | print e =>
    refine .bind (H.eval e h hs) fun v h₁ _ _ => .needing _ _ ?_
    exact .bind (.aside (g := (·.write (v.render ++ "\n"))) (fun _ => rfl) (fun _ => rfl)
      (fun _ => rfl) fun _ => rfl) fun _ _ _ _ => .pure trivial
  | var x e =>
    cases e with
    | none =>
      exact .needing _ _ (.bind (.define hs.1 (v := .nil) trivial) fun _ _ _ _ => .pure trivial)
    | some e =>
      refine .bind (H.eval e h (hs.2 e rfl)) fun v h₁ _ hv => .needing _ _ ?_
      exact .bind (.define hs.1 hv) fun _ _ _ _ => .pure trivial
  | block body =>
    refine .needing _ _ (.get fun ho => ?_)
    refine .bind (.newFrame ho.current.live (admits_of_plain (fun x v hv => by cases hv) ?_)) ?_
    · exact fun _ _ => rfl
    · rintro frame h₁ - ⟨-, hordinary⟩
      exact .inFrame (hordinary fun _ _ => rfl) fun h' _ => H.execAll body h' hs
  | branch t y e =>
    cases e with
    | none =>
      refine .bind (H.eval t h hs.1) fun v h₁ _ _ => .needing _ _ ?_
      exact .ite (fun _ => H.exec y h₁ hs.2.2) fun _ => .pure trivial
    | some e =>
      refine .bind (H.eval t h hs.1) fun v h₁ _ _ => .needing _ _ ?_
      exact .ite (fun _ => H.exec y h₁ hs.2.1.2) fun _ => H.exec e h₁ hs.2.2.2
  | loop t body =>
    refine .repeatWhile (fun h => ?_) (fun h => H.exec body h hs.2.2) turns h
    exact .bind (H.eval t h hs.1) fun _ _ _ _ => .needing _ _ (.pure trivial)
  | leave k => exact .pure trivial
  | giveBack k e =>
    cases e with
    | none => exact .needing _ _ (.pure trivial)
    | some e => exact .bind (H.eval e h (hs e rfl)) fun v h₁ _ hv => .needing _ _ (.pure hv)
  | function d =>
    refine .needing _ _ (.get fun ho => ?_)
    have hd : h.Has (.function ⟨d, h.machine.current, false⟩) := ⟨ho.current.live, hs⟩
    exact .bind (.define (FunDecl.Shaped.name hs) hd) fun _ _ _ _ => .pure trivial
  | classDecl x s ms =>
    exact .needing _ _ (.bind (tracks_declareClass _ hs.1 hs.2.2) fun _ _ _ _ => .pure trivial)

end TracksAt

/-- **Every step of the evaluator goes along a trail.** -/
theorem tracksAt (turns room : Nat) : TracksAt turns room := by
  induction room with
  | zero =>
    exact ⟨fun _ _ _ => .throw _, fun _ _ _ => .throw _, fun _ _ _ _ _ => .throw _,
      fun _ _ _ _ _ => .throw _, fun _ _ _ _ _ => .throw _, fun _ _ _ => .throw _,
      fun _ _ _ => .throw _⟩
  | succ room H =>
    exact ⟨H.eval_succ, H.evalAll_succ, H.call_succ, H.construct_succ, H.invoke_succ,
      H.execAll_succ, H.exec_succ⟩

/-- **A program runs along a trail.** -/
theorem tracks_runAll (turns room : Nat) (p : Program) (h : Heap) (hp : Stmt.AllShaped p) :
    h.Tracks (runAll (exec turns room) p) fun _ _ => True := by
  induction p generalizing h with
  | nil => exact .pure trivial
  | cons s p ih =>
    refine .bind ((tracksAt turns room).exec s h hp.1) fun c h₁ _ _ => ?_
    cases c with
    | giveBack v => exact .pure trivial
    | normal | leave => exact ih h₁ hp.2

end Machine

end LoxKit
