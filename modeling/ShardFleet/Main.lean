import ShardFleet.CommandLine.Program
import ShardFleet.CommandLine.Recording
import Std.Async.DNS
import Std.Async.Signal
import Std.Async.System
import Std.Async.TCP
import Std.Async.Timer

/-!
# The program on a machine

Runs the program with files, sockets and an interrupt key. The program itself is pure: it is run on
what came of its calls so far, and as long as a question is open the call is made and the program
taken on with its result.
-/

namespace ShardFleet.Machine

open Std.Async CommandLine

/-- The number that the operating system gives to an error, which may come negated. -/
def systemNumber? : IO.Error → Option Nat
  | .alreadyExists _ n _ | .otherError n _ | .resourceBusy n _ | .resourceVanished n _
  | .unsupportedOperation n _ | .hardwareFault n _ | .unsatisfiedConstraints n _
  | .illegalOperation n _ | .protocolError n _ | .timeExpired n _ | .interrupted _ n _
  | .noFileOrDirectory _ n _ | .invalidArgument _ n _ | .permissionDenied _ n _
  | .resourceExhausted _ n _ | .inappropriateType _ n _ | .noSuchThing _ n _ =>
    some (min n.toNat (-n).toNat)
  | _ => none

/-- The words for the errors that files and sockets meet most. -/
def systemWords : List (Nat × String) :=
  [(2, "No such file or directory"), (13, "Permission denied"), (20, "Not a directory"),
    (21, "Is a directory"), (32, "Broken pipe"), (36, "File name too long"),
    (101, "Network is unreachable"), (104, "Connection reset by peer"),
    (110, "Connection timed out"), (111, "Connection refused"), (113, "No route to host")]

/-- The wording of an error. -/
def wording (e : IO.Error) : String :=
  match (systemNumber? e).bind fun n => systemWords.find? (·.1 = n) with
  | some (n, words) => s!"{words} (os error {n})"
  | none => toString e

/-- The sockets by their links. -/
abbrev Sockets := IO.Ref (List (Nat × TCP.Socket.Client))

/-- The socket of a link. -/
def socket (sockets : Sockets) (link : Nat) : IO TCP.Socket.Client := do
  match (← sockets.get).lookup link with
  | some s => return s
  | none => throw (IO.userError "no such socket")

/-- The addresses of a node. -/
def addresses (node : Node) : Async (List Std.Net.SocketAddress) := do
  let port := UInt16.ofNat node.port
  let found ← DNS.getAddrInfo node.host (toString node.port)
  return found.toList.map fun
    | .v4 a => .v4 ⟨a, port⟩
    | .v6 a => .v6 ⟨a, port⟩

/-- Connects to the first address that can be reached. -/
def connectFirst : List Std.Net.SocketAddress → Async TCP.Socket.Client
  | [] => throw (IO.userError "no address found")
  | address :: others => do
    try
      let s ← TCP.Socket.Client.mk
      s.connect address
      return s
    catch e => if others.isEmpty then throw e else connectFirst others

/-- Connects to a node within the time that the settings leave for it. -/
def dial (node : Node) (settings : ClientSettings) : Async TCP.Socket.Client := do
  let reach : Async (Option TCP.Socket.Client) := do return some (← connectFirst (← addresses node))
  let late : Async (Option TCP.Socket.Client) := do
    sleep (.ofNat settings.connectTimeout)
    return none
  match ← Async.race reach late with
  | none => throw (IO.userError "connect timed out")
  | some s =>
    s.noDelay
    match settings.keepalive with
    | some (n + 1) => s.keepAlive true (.ofNat (n + 1)) (Int.natCast_nonneg _)
    | _ => pure ()
    return s

/-- How many bytes are read at once. -/
def readSize : UInt64 := 8192

/-- Reads from a socket: nothing when the time `wait` is over. -/
def readWithin (s : TCP.Socket.Client) (wait : Nat) : Async Reading := do
  let timer ← Selector.sleep (.ofNat wait)
  Selectable.one #[
    .case (s.recvSelector readSize) fun
      | some b => return if b.isEmpty then .ended else .bytes b.toList
      | none => return .ended,
    .case timer fun _ => return .nothing]

/-- Reads from a socket until something arrives, or until the user interrupts the program, if that
matters. -/
partial def readPatiently (s : TCP.Socket.Client) (interrupt : Option (AsyncTask Int)) :
    IO (Option Reading) := do
  match ← (readWithin s glance).block, interrupt with
  | .nothing, some i => if ← IO.hasFinished i then return none else readPatiently s interrupt
  | .nothing, none => readPatiently s none
  | r, _ => return some r

/-- Makes a call that begins at `now`: what comes of it, unless the user interrupts a wait that has no
end. -/
def makeCall (sockets : Sockets) (interrupt : Option (AsyncTask Int)) (now : Nat) :
    StreamCall → IO (Option CallResult)
  | .dial link node settings => do
    let s ← (dial node settings).block
    sockets.modify ((link, s) :: ·)
    return some .done
  | .write link b => do
    (← socket sockets link).send (ByteArray.mk b.toArray) |>.block
    return some .done
  | .read link none => do
    return (← readPatiently (← socket sockets link) interrupt).map .read
  | .read link (some deadline) => do
    return some (.read (← (readWithin (← socket sockets link) (deadline - now)).block))
  | .shutdown link => do
    try (← socket sockets link).shutdown.block catch _ => pure ()
    return some .done

/-- What comes of a call that fails. -/
def failed (e : IO.Error) : StreamCall → CallResult
  | .read .. => .read (.broken (wording e))
  | _ => .refused (wording e)

/-- The state of the program's network. -/
abbrev NetworkState := Stream.State Recording

/-- The network with what came of its calls. -/
def heard (results : List (CallResult × Nat)) (w : Wire NetworkState) : Wire NetworkState :=
  { w with net := { w.net with net := { w.net.net with results, question := none } } }

/-- The network after an interrupt. -/
def interruptedAt (t : Nat) (w : Wire NetworkState) : Wire NetworkState :=
  { w with net := { w.net with net := { w.net.net with interrupted := some t } } }

/-- Writes a report. -/
def write (r : Report) : IO Unit := do
  IO.print r.stdout
  IO.eprint r.stderr
  (← IO.getStdout).flush

/-- The report of a program that the user interrupts while it follows nothing. -/
def killed : Report := { code := some 130 }

/-- Runs a stretch of the program from a state of its network until no question is open. A stretch that
follows a subscription is done with once its question is open; any other is run again with the
result of the call. Only the first interrupt matters. -/
partial def runStretch (sockets : Sockets) (interrupt : AsyncTask Int)
    (goOn : Following → Wire NetworkState → Result × Wire NetworkState)
    (stretch : Wire NetworkState → Result × Wire NetworkState) (w : Wire NetworkState)
    (results : List (CallResult × Nat)) : IO Result := do
  let (result, after) := stretch (heard results w)
  match after.net.net.question with
  | none => return result
  | some (call, now) =>
    let begun ← IO.monoMsNow
    let heeded := if w.net.net.interrupted.isNone then some interrupt else none
    let came ← try makeCall sockets heeded now call catch e => pure (some (failed e call))
    let ended := now + ((← IO.monoMsNow) - begun)
    match result.following, came with
    | some f, some c => do
      write result.report
      runStretch sockets interrupt goOn (goOn f) after [(c, ended)]
    | some f, none => do
      write result.report
      runStretch sockets interrupt goOn (goOn f) (interruptedAt ended after) []
    | none, some c => runStretch sockets interrupt goOn stretch w (results ++ [(c, ended)])
    | none, none => return killed

/-- The settings file that a request needs. -/
def settingsFile : Request → IO (Except String Bytes)
  | .run _ wishes =>
    match wishes.find? .config with
    | none => return .ok []
    | some path => do
      try return .ok (← IO.FS.readBinFile path).toList
      catch e => return .error (wording e)
  | _ => return .ok []

/-- Writes a file: why it cannot be written, if it cannot. -/
def writeFile (path text : String) : IO (Option String) := do
  try
    IO.FS.writeFile path text
    return none
  catch e => return some (wording e)

/-- Runs the program with its arguments. -/
def runHere (arguments : List String) : IO UInt32 := do
  let file ← settingsFile (readArguments arguments)
  let here (machine : String) (refusal : Option String) : Surroundings NetworkState := {
    read := fun _ => file
    refusal := fun _ => refusal
    interrupt := fun s now => s.net.interrupted.map (max now)
    machine
    showTook := Duration.rounded }
  let machine := (← System.getSystemInfo).machine
  let sockets : Sockets ← IO.mkRef []
  let interrupt ← (← Signal.Waiter.mk .sigint false).wait
  let start : Wire NetworkState := { net := { net := {} } }
  let around := here machine none
  let goOn := fun (f : Following) => f.goOn Recording.network around {}
  let result ← runStretch sockets interrupt goOn (run Recording.network around arguments) start []
  let refusal ← match result.file with
    | some (path, text) => writeFile path text
    | none => pure none
  let report := if refusal.isNone then result.report
    else (run Recording.network (here machine refusal) arguments start).1.report
  write report
  return UInt32.ofNat (report.code.getD 0)

end ShardFleet.Machine

/-- The program. -/
def main (arguments : List String) : IO UInt32 := ShardFleet.Machine.runHere arguments
