import ShardFleet.Network

/-!
# Rehearsals

A rehearsal stands in for a network of servers. Every link answers a command at once by itself, as a
server would that holds nothing, unless a rule of the script says otherwise; what nobody sends never
arrives.
-/

namespace ShardFleet.Rehearsal

/-- What a rule makes of an event. -/
inductive Action where
  /-- The link is not made. -/
  | refuse
  /-- The link breaks while the command is sent. -/
  | dropSend
  /-- The link breaks instead of a reply. -/
  | dropRead
  /-- The wait for the reply ends in a fault. -/
  | timeout
  /-- There is no reply. -/
  | silent
  /-- The reply is these bytes. -/
  | reply (wire : Bytes)
deriving DecidableEq, Repr

/-- A rule for the events of a node, or of all nodes, that concern a command, or any. -/
structure Rule where
  node : Option String := none
  command : Option String := none
  action : Action
  /-- How often the rule still applies. -/
  times : Nat := 1
deriving DecidableEq, Repr

/-- The event of making a link. A rule for any command does not apply to it. -/
def connectEvent : String := "CONNECT"

/-- Whether a rule applies to an event. -/
def Rule.applies (r : Rule) (node command : String) : Bool :=
  0 < r.times && r.node.all (· = node) &&
    match r.command with
    | some c => c = command
    | none => command ≠ connectEvent

/-- The action of the first rule that applies to an event, and the rules after it was used. -/
def use (node command : String) : List Rule → Option Action × List Rule
  | [] => (none, [])
  | r :: rs =>
    if r.applies node command then (some r.action, { r with times := r.times - 1 } :: rs)
    else let (a, rs) := use node command rs; (a, r :: rs)

/-- What a link holds for its reader. -/
inductive Item where
  | value (v : Resp.Value)
  | fault (f : Fault)
  | disconnect
deriving DecidableEq, Repr

/-- One link and the server at its other end. -/
structure Link where
  node : String
  broken : Bool := false
  queue : List Item := []
  channels : List Bytes := []
  patterns : List Bytes := []
deriving Repr

/-- The script and all links that were made, in the order of their numbers. -/
structure Stage where
  rules : List Rule := []
  links : List Link := []
deriving Repr

/-! ### Servers -/

/-- The items that some bytes make: every frame, and then the fault that ends them if there is
one. -/
def itemsOf (wire : Bytes) : List Item :=
  let d := Resp.drain wire
  d.values.map .value ++ (d.fault.map fun f => .fault (.protocol (.frame f))).toList

/-- Whether names are added to a list of subscriptions or taken from it. -/
inductive Change where
  | add
  | remove
deriving DecidableEq, Repr

/-- A list of subscriptions after one name is added at its end or removed. -/
def Change.apply (c : Change) (name : Bytes) (held : List Bytes) : List Bytes :=
  let rest := held.filter (· ≠ name)
  match c with
  | add => rest ++ [name]
  | remove => rest

/-- The acknowledgement of one name. -/
def acknowledgement (kind : String) (name : Resp.Value) (total : Nat) : Item :=
  .value (.array [.bulk (utf8 kind), name, .integer (Int64.ofNat total)])

/-- Acknowledges names one by one, where `others` names are held besides the list `held`. -/
def acknowledge (kind : String) (c : Change) (others : Nat) :
    List Bytes → List Bytes → List Item × List Bytes
  | [], held => ([], held)
  | name :: names, held =>
    let held := c.apply name held
    let (items, last) := acknowledge kind c others names held
    (acknowledgement kind (.bulk name) (held.length + others) :: items, last)

/-- The items for a change of one list of subscriptions. Removing no names removes all; when there
are none, that is acknowledged without a name. -/
def change (kind : String) (c : Change) (names held : List Bytes) (others : Nat) :
    List Item × List Bytes :=
  let names := if c = .remove ∧ names = [] then held else names
  if c = .remove ∧ names = [] then ([acknowledgement kind .nullBulk (held.length + others)], held)
  else acknowledge kind c others names held

/-- The link after its server has answered a command by itself. -/
def Link.answer (l : Link) (c : Command) : Link :=
  let channels (kind : String) (how : Change) : Link :=
    let (items, held) := change kind how c.args l.channels l.patterns.length
    { l with queue := l.queue ++ items, channels := held }
  let patterns (kind : String) (how : Change) : Link :=
    let (items, held) := change kind how c.args l.patterns l.channels.length
    { l with queue := l.queue ++ items, patterns := held }
  let reply (v : Resp.Value) : Link := { l with queue := l.queue ++ [.value v] }
  if c.name = "PING" then reply (.simple "PONG")
  else if c.name = "GET" then reply .nullBulk
  else if c.name = "EXEC" then reply (.array [])
  else if c.name = "SUBSCRIBE" then channels "subscribe" .add
  else if c.name = "UNSUBSCRIBE" then channels "unsubscribe" .remove
  else if c.name = "PSUBSCRIBE" then patterns "psubscribe" .add
  else if c.name = "PUNSUBSCRIBE" then patterns "punsubscribe" .remove
  else reply (.simple "OK")

/-! ### The network -/

/-- The fault of a broken link. -/
def Link.reset (l : Link) : Fault := .connection l.node "mock reset"

/-- The link after a command, for which a rule may have an action. -/
def Link.command (l : Link) (c : Command) : Option Action → Sending × Link
  | none | some .refuse => (.sent, l.answer c)
  | some .dropSend => (.lost l.reset, { l with broken := true })
  | some .dropRead => (.sent, { l with queue := l.queue ++ [.disconnect] })
  | some .timeout =>
    (.sent, { l with queue := l.queue ++ [.fault (.timeout (.reply c.name l.node))] })
  | some .silent => (.sent, l)
  | some (.reply wire) => (.sent, { l with queue := l.queue ++ itemsOf wire })

/-- The link after its next item is taken. -/
def Link.next (l : Link) : Outcome Resp.Value × Link :=
  if l.broken then (.failed l.reset, l)
  else
    match l.queue with
    | [] => (.stalled, l)
    | .value v :: rest => (.ok v, { l with queue := rest })
    | .fault f :: rest => (.failed f, { l with queue := rest })
    | .disconnect :: rest => (.failed l.reset, { l with queue := rest, broken := true })

/-- The stage with one link changed. -/
def Stage.setLink (s : Stage) (link : Nat) (l : Link) : Stage :=
  { s with links := s.links.set link l }

/-- The stage with more items for the reader of a link. -/
def Stage.push (link : Nat) (items : List Item) (s : Stage) : Stage :=
  match s.links[link]? with
  | some l => s.setLink link { l with queue := l.queue ++ items }
  | none => s

/-- When a wait that nothing ends is over. -/
def overdue (now : Nat) (deadline : Option Nat) : Nat := max now (deadline.getD now)

/-- The network of a stage. -/
def network : Network Stage where
  connect _ node now _ s :=
    match use node.id connectEvent s.rules with
    | (some _, rules) => (.failed (.connection node.id "mock refused"), now, { s with rules })
    | (none, rules) => (.ok (), now, { s with rules, links := s.links ++ [{ node := node.id }] })
  send link c _ s :=
    match s.links[link]? with
    | none => (.refused (.internal "no such link"), s)
    | some l =>
      if l.broken then (.refused l.reset, s)
      else
        let (action, rules) := use l.node c.name s.rules
        let (r, l) := l.command c action
        (r, { s with rules }.setLink link l)
  receive link now deadline s :=
    match s.links[link]? with
    | none => (.failed (.internal "no such link"), now, s)
    | some l =>
      match l.next with
      | (.stalled, l) => (.stalled, overdue now deadline, s.setLink link l)
      | (r, l) => (r, now, s.setLink link l)
  close _ _ s := s
  patience _ := none
  backlog link s := (s.links[link]?.map (·.queue.length + 1)).getD 0

end ShardFleet.Rehearsal
