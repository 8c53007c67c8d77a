import LoxKit.Store

/-!
# Requests to a store

A store of frames is asked to make a frame, to bind a name, to read it or to give it another
value, by search or by distance, or to find a frame outward.  Requests are answered one after
the other; each leaves a store behind, in which the next one is answered.
-/
namespace LoxKit
namespace Store

variable {α : Type}

/-- **What a store is asked for.** -/
inductive Request (α : Type) where
  | new (enclosing : Option FrameId)
  | define (frame : FrameId) (name : String) (value : α)
  | get (frame : FrameId) (name : String)
  | assign (frame : FrameId) (name : String) (value : α)
  | ancestor (frame : FrameId) (distance : Int)
  | getAt (frame : FrameId) (distance : Int) (name : String)
  | assignAt (frame : FrameId) (distance : Int) (name : String) (value : α)

/-- What a store answers. -/
inductive Answer (α : Type) where
  | frame (f : FrameId)
  | value (v : α)
  | done

/-- The answer to a change, and the store behind it. -/
def settle (s : Store α) : Except AccessFault (Store α) → Except AccessFault (Answer α) × Store α
  | .ok t => (.ok .done, t)
  | .error fault => (.error fault, s)

/-- **Answers a request.** -/
def perform (s : Store α) : Request α → Except AccessFault (Answer α) × Store α
  | .new enclosing =>
    let (f, t) := s.new enclosing
    (.ok (.frame f), t)
  | .define f name v => s.settle (.ok (s.define f name v))
  | .get f name => ((s.get f name).map .value, s)
  | .assign f name v => s.settle (s.assign f name v)
  | .ancestor f distance => ((s.ancestor f distance).map .frame, s)
  | .getAt f distance name => ((s.getAt f distance name).map .value, s)
  | .assignAt f distance name v => s.settle (s.assignAt f distance name v)

end Store
end LoxKit
