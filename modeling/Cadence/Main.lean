import Cadence.Backend.Keyed
import Cadence.CommandLine
import Cadence.Config.Yaml
import Cadence.Service
import Std.Http.Server
import Std.Time.DateTime.Timestamp

namespace Cadence

-- The service and its state, which one request at a time may change.
structure Host where
  service : Service Database
  state : Std.Mutex (ServiceState Database)

namespace Host

def now : IO Timestamp := do
  let t ← Std.Time.Timestamp.now
  return .ofNanoseconds t.toNanosecondsSinceUnixEpoch.toInt

partial def bytes (body : Std.Http.Body.Stream) (read : ByteArray) : Std.Async.Async ByteArray := do
  match ← body.recv with
  | some chunk => bytes body (read ++ chunk.data)
  | none => return read

def request (r : Std.Http.Request Std.Http.Body.Stream) : Std.Async.Async Http.Request := do
  let (path, query) := Http.splitTarget (toString r.line.uri)
  let headers := r.line.headers.toList.map fun (name, value) => (name.value, value.value)
  let head : Http.Request := ⟨.ofName (toString r.line.method), path, query, headers, ""⟩
  let body ← bytes r.body .empty
  return { head with body := Http.Form.bodyText (head.header? "content-type") body.toList }

def response (a : Http.Response) : Std.Async.Async (Std.Http.Response Std.Http.Body.Full) :=
  let status := (Std.Http.Status.ofCode none (UInt16.ofNat a.status)).getD .internalServerError
  let head := Std.Http.Response.withStatus status
  let head :=
    match a.contentType.bind Std.Http.Header.Value.ofString? with
    | some type => head.header .contentType type
    | none => head
  head.fromBytes a.body.toUTF8

def answer (host : Host) (r : Http.Request) : IO Http.Response := do
  let time ← now
  host.state.atomically (modifyGet fun s => (host.service.handle time r).run s)

instance : Std.Http.Server.Handler Host where
  ResponseBody := Std.Http.Body.Full
  onRequest host r := do response (← host.answer (← request r))

end Host

def loadConfig (c : CommandLine) : IO (Except QueryError Config) := do
  match c.config with
  | none => return .ok .standard
  | some path =>
    try return Config.ofYaml (← IO.FS.readFile path)
    catch fault => return .error (Config.unreadable path (toString fault))

def serve (c : CommandLine) (config : Config) : IO Unit := do
  let database := Database.empty (some Sample.mergeRule)
  let host : Host :=
    ⟨.ofBackend Keyed.backend config, ← Std.Mutex.new ⟨.zero, database⟩⟩
  let address := Std.Net.SocketAddress.v4 ⟨.ofParts 0 0 0 0, UInt16.ofNat c.port⟩
  let server ← (Std.Http.Server.serve address host).block
  server.waitShutdown.block

end Cadence

open Cadence in
def main (args : List String) : IO UInt32 := do
  let env : Environment := ⟨← IO.getEnv "GRAPHITE_CONFIG_FILE", ← IO.getEnv "GRAPHITE_PORT"⟩
  match CommandLine.parse args env with
  | .error .help =>
    IO.println CommandLineError.help.message
    return 0
  | .error e =>
    IO.eprintln e.message
    return 2
  | .ok c =>
    match ← loadConfig c with
    | .error e =>
      IO.eprintln e.message
      return 1
    | .ok config =>
      serve c config
      return 0
