import Docmark.Json.Token

/-!
JSON values, as far as a text goes. A text that stops being JSON part of the way still has the
values in front of the fault, because a reader that finds another shape there reports that first.
-/

namespace Docmark.Json

inductive Value
  | scalar (s : Scalar)
  /-- The items, and the fault that stands in place of the closing bracket. -/
  | array (items : List Value) (fault : Option Fault)
  | object (fields : List (Quoted × Value)) (fault : Option Fault)
  | absent

namespace Value

inductive Due
  | value
  | valueOrEnd
  | commaOrEnd
  | key
  | keyOrEnd
  | colon

inductive Frame
  | array (items : List Value)
  | object (fields : List (Quoted × Value))
  | entry (fields : List (Quoted × Value)) (key : Quoted)

def Frame.add (v : Value) : Frame → Frame
  | .array items => .array (items ++ [v])
  | .object fields => .object fields
  | .entry fields key => .object (fields ++ [(key, v)])

def Frame.close (fault : Option Fault) : Frame → Value
  | .array items => .array items fault
  | .object fields => .object fields fault
  | .entry fields key => .object (fields ++ [(key, .absent)]) fault

def Frame.addKey (fault : Fault) : Frame → Frame
  | .object fields => .entry fields ⟨[], some fault⟩
  | frame => frame

def wrap (v : Value) : List Frame → Value
  | [] => v
  | frame :: frames => wrap ((frame.add v).close none) frames

def stop (due : Due) (fault : Fault) : List Frame → Value
  | [] => if fault = .ended then .absent else .scalar (.broken fault fault)
  | frame :: frames =>
    match due with
    | .value | .colon =>
      wrap (if fault = .ended then .absent else .scalar (.broken fault fault)) (frame :: frames)
    | .valueOrEnd =>
      match fault with
      | .ended => wrap (frame.close (some fault)) frames
      | _ => wrap (.scalar (.broken fault fault)) (frame :: frames)
    | .commaOrEnd | .keyOrEnd => wrap (frame.close (some fault)) frames
    | .key => wrap ((frame.addKey fault).close none) frames

def build (due : Due) : List Frame → List Token → Value × List Token
  | frames, [] => (stop due .ended frames, [])
  | frames, token :: tokens =>
    match due, token, frames with
    | .value, .scalar s, [] | .valueOrEnd, .scalar s, [] => (.scalar s, tokens)
    | .value, .scalar s, frame :: frames | .valueOrEnd, .scalar s, frame :: frames =>
      build .commaOrEnd (frame.add (.scalar s) :: frames) tokens
    | .value, .beginArray, frames | .valueOrEnd, .beginArray, frames =>
      build .valueOrEnd (.array [] :: frames) tokens
    | .value, .beginObject, frames | .valueOrEnd, .beginObject, frames =>
      build .keyOrEnd (.object [] :: frames) tokens
    | .valueOrEnd, .endArray, .array items :: frames | .commaOrEnd, .endArray, .array items :: frames =>
      leave (.array items none) frames tokens
    | .keyOrEnd, .endObject, .object fields :: frames
    | .commaOrEnd, .endObject, .object fields :: frames =>
      leave (.object fields none) frames tokens
    | .commaOrEnd, .comma, .array items :: frames => build .value (.array items :: frames) tokens
    | .commaOrEnd, .comma, .object fields :: frames => build .key (.object fields :: frames) tokens
    | .key, .scalar (.text q), .object fields :: frames
    | .keyOrEnd, .scalar (.text q), .object fields :: frames =>
      build .colon (.entry fields q :: frames) tokens
    | .colon, .colon, frames => build .value frames tokens
    | due, _, frames => (stop due .notJson frames, [])
where
  leave (v : Value) : List Frame → List Token → Value × List Token
  | [], tokens => (v, tokens)
  | frame :: frames, tokens => build .commaOrEnd (frame.add v :: frames) tokens

end Value
end Docmark.Json
