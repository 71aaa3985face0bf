import Asn1.Ber.Header

/-!
# Sessions

A session is a family of windows that grows: the first one lies over a buffer, and each slice of a
window joins the family as its last member. An action addresses one window by its number. An action
that fails leaves the family as it was, and one that succeeds changes at most the window that it
addresses.
-/

namespace Asn1.Ber

/-- The windows of a session, the oldest first. -/
structure Session where
  windows : List Window

namespace Session

/-- What can be asked of a window. -/
inductive Action where
  | readByte
  | readBytes (count : Nat)
  | seek (position : Nat)
  | readHeader
  | slice (start stop : Nat)
  deriving Repr

/-- What a successful action hands out. -/
inductive Reply where
  | octet (octet : UInt8)
  | octets (octets : Octets)
  | moved
  | header (header : Header)
  /-- The number of the new window, and its octets. -/
  | sliced (number : Nat) (octets : Octets)
  deriving Repr

/-- The octets that are handed out. -/
def Reply.handedOut : Reply → Octets
  | .octet value => [value]
  | .octets values => values
  | .moved => []
  | .header found => found.identifier
  | .sliced _ values => values

/-- The position in a window of the first octet that an action hands out. -/
def Action.position (window : Window) : Action → Nat
  | .slice start _ => start
  | _ => window.offset

/-- The session with one window over a buffer. -/
def ofOctets (data : Octets) : Session :=
  ⟨[Window.ofOctets data]⟩

/-- The session with another state of one window. -/
def update (session : Session) (number : Nat) (window : Window) : Session :=
  ⟨session.windows.set number window⟩

/-- Performs an action on a window of the session, which is the one with the given number. -/
def performOn (session : Session) (number : Nat) (window : Window) :
    Action → Except Error (Reply × Session)
  | .readByte => do
    let (octet, window) ← window.readByte
    return (.octet octet, session.update number window)
  | .readBytes count => do
    let (octets, window) ← window.readBytes count
    return (.octets octets, session.update number window)
  | .seek position => do
    let window ← window.seek position
    return (.moved, session.update number window)
  | .readHeader => do
    let (header, window) ← Header.decode window
    return (.header header, session.update number window)
  | .slice start stop => do
    let sliced ← window.slice start stop
    return (.sliced session.windows.length sliced.data, ⟨session.windows ++ [sliced]⟩)

/-- Performs an action on the window with the given number. The result is missing when there is no
such window, and the session is then as it was. -/
def perform (session : Session) (number : Nat) (action : Action) :
    Option (Except Error Reply) × Session :=
  match session.windows[number]? with
  | none => (none, session)
  | some window =>
    match session.performOn number window action with
    | .error error => (some (.error error), session)
    | .ok (reply, session) => (some (.ok reply), session)

/-- A session in which every window is known by the slices that it came through. -/
structure Traced where
  session : Session
  /-- For each window the starts of those slices, from the buffer inwards. -/
  starts : List (List Nat)

namespace Traced

/-- The session with one window over a buffer, which came through no slice. -/
def ofOctets (data : Octets) : Traced :=
  ⟨.ofOctets data, [[]]⟩

/-- The starts after an action. A slice begins where it does in the window that it is taken from. -/
def startsAfter (starts : List (List Nat)) (number : Nat) :
    Action → Option (Except Error Reply) → List (List Nat)
  | .slice start _, some (.ok _) => starts ++ [starts.getD number [] ++ [start]]
  | _, _ => starts

/-- Performs an action on the window with the given number. -/
def perform (traced : Traced) (number : Nat) (action : Action) : Traced :=
  let (reply, session) := traced.session.perform number action
  ⟨session, startsAfter traced.starts number action reply⟩

/-- Performs actions one after the other, each on the window with the number beside it, in the
session that starts with one window over a buffer. -/
def run (data : Octets) (actions : List (Nat × Action)) : Traced :=
  actions.foldl (fun traced step => traced.perform step.1 step.2) (ofOctets data)

end Traced

end Session

end Asn1.Ber
