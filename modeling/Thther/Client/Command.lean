import Mathlib.Data.List.DropRight
import Thther.Lib.Hex
import Thther.Lib.Lines
import Thther.Proto.Handshake
import Thther.Server.Agent
import Thther.Server.ExecuteControl

/-!
# The client commands (`main.rs`, `config.rs`, `client/bootstrap.rs`)

What `thther`, `thther attach`, `thther ls` and `thther kill` do around the interactive session:
the configuration with its overrides, the command that `ssh` is run with, and what becomes of the
line the agent has printed.  An error is its chain of contexts, outermost first.

`serde_json` is a parameter `Json`, with what its documentation says in `Json.Lawful`.

* `parsePsk_hexEncode`: the key arrives;
* `runSsh_printed`: so does the answer of the agent, whatever a login shell prints first;
* `dispatch_eq_ok`: a command that goes on has its answer from `ssh`.
-/

namespace Thther

/-- `serde_json::to_string` and `serde_json::from_str` for one type. -/
structure Json (α : Type) where
  toString : α → Except String String
  fromStr : String → Except String α

/-- A value is written as one line, it is read back, and a line that is cut off is not read. -/
structure Json.Lawful {α : Type} (J : Json α) : Prop where
  line : ∀ a s, J.toString a = .ok s → Lines.OneLine s.toList
  fromStr : ∀ a s, J.toString a = .ok s → J.fromStr s = .ok a
  cut : ∀ a s t b, J.toString a = .ok s → t <+: s.toList → t ≠ s.toList →
    J.fromStr (String.ofList t) ≠ .ok b

/-- The value can be written. -/
def Json.Writes {α : Type} (J : Json α) (a : α) : Prop := ∃ s, J.toString a = .ok s

/-- The JSON of some values. -/
def Json.table {α : Type} [DecidableEq α] (entries : List (α × String)) : Json α where
  toString a := match entries.find? fun e => e.1 = a with
    | some e => .ok e.2
    | none => .error "unknown value"
  fromStr s := match entries.find? fun e => e.2 = s with
    | some e => .ok e.1
    | none => .error "unknown text"

/-- A table of different texts, none of which is the first part of another. -/
theorem Json.table_lawful {α : Type} [DecidableEq α] {entries : List (α × String)}
    (hline : ∀ e ∈ entries, Lines.OneLine e.2.toList)
    (hcut : ∀ e ∈ entries, ∀ f ∈ entries, e.2.toList <+: f.2.toList → e = f) :
    (Json.table entries).Lawful := by
  have hmem : ∀ a s, (Json.table entries).toString a = .ok s → (a, s) ∈ entries := by
    intro a s h
    simp only [Json.table] at h
    split at h
    · rename_i e he
      cases h
      have ha := List.find?_some he
      rw [← of_decide_eq_true ha]
      exact List.mem_of_find?_eq_some he
    · cases h
  have hread : ∀ a s, (Json.table entries).fromStr s = .ok a → (a, s) ∈ entries := by
    intro a s h
    simp only [Json.table] at h
    split at h
    · rename_i e he
      cases h
      have ha := List.find?_some he
      rw [← of_decide_eq_true ha]
      exact List.mem_of_find?_eq_some he
    · cases h
  refine ⟨fun a s h => hline _ (hmem a s h), fun a s h => ?_, fun a s t b h ht hne hb => ?_⟩
  · cases hf : (Json.table entries).fromStr s with
    | ok b =>
      have heq := hcut _ (hread b s hf) _ (hmem a s h) List.prefix_rfl
      rw [(Prod.mk.inj heq).1]
    | error e =>
      simp only [Json.table] at hf
      split at hf
      · cases hf
      · rename_i hnone
        exact absurd (decide_eq_true rfl) (List.find?_eq_none.1 hnone _ (hmem a s h))
  · have heq := hcut _ (hread b _ hb) _ (hmem a s h) (by rw [String.toList_ofList]; exact ht)
    refine hne ?_
    rw [← (Prod.mk.inj heq).2, String.toList_ofList]

/-- `str::trim` -/
def trimmed (s : String) : String := String.ofList (Lines.trim s.toList)

/-- A line read with its end is the line written. -/
theorem trimmed_line {α : Type} {J : Json α} (hJ : J.Lawful) {a : α} {line : String}
    (hline : J.toString a = .ok line) : trimmed (line ++ "\n") = line := by
  rw [trimmed, String.toList_append]
  change String.ofList (Lines.trim (line.toList ++ ['\n'])) = line
  rw [Lines.trim_line (hJ.line _ _ hline), String.ofList_toList]

/-! ### Configuration -/

/-- `Config`; `sshPort` is not part of the file. -/
structure Config extends PortConfig where
  sshTarget : Option String
  sshPort : Option NonZeroU16
  tcpHost : Option String
  ringBytes : ℕ

namespace Config

/-- The defaults. -/
def default : Config where
  sshTarget := none
  sshPort := none
  tcpHost := none
  port := none
  portRange := (60000, 61000)
  ringBytes := 256 * 1024

/-- `with_client_overrides` -/
def withClientOverrides (c : Config) (target : Option String) (port : Option NonZeroU16) :
    Config :=
  let c := match target with
    | some target => { c with sshTarget := some target, tcpHost := none }
    | none => c
  { c with port := port.or c.port }

/-- What `read_to_string` makes of the file. -/
inductive File
  | text (s : String)
  | notFound
  | fails (e : String)

/-- `Config::load`; `parse` is `toml::from_str`. -/
def load (path : String) (parse : String → Except String Config) :
    File → Except (List String) Config
  | .text s => match parse s with
    | .ok c => .ok c
    | .error e => .error ["parsing " ++ path, e]
  | .notFound => .ok default
  | .fails e => .error ["reading " ++ path, e]

/-- `require_ssh_target` -/
def requireSshTarget (path : String) (c : Config) : Except (List String) String :=
  match c.sshTarget with
  | some target => .ok target
  | none => .error ["no ssh target; pass -t user@host or set ssh_target in " ++ path]

/-- `target.rsplit('@').next()`: what follows the last `@`. -/
def hostPart (target : String) : String := String.ofList (target.toList.rtakeWhile (· ≠ '@'))

/-- `resolve_tcp_host` -/
def resolveTcpHost (path : String) (c : Config) : Except (List String) String :=
  match c.tcpHost with
  | some h => .ok h
  | none => (c.requireSshTarget path).map hostPart

theorem resolveTcpHost_of_target {path target : String} {c : Config}
    (h : c.requireSshTarget path = .ok target) : ∃ host, c.resolveTcpHost path = .ok host := by
  unfold resolveTcpHost
  cases c.tcpHost with
  | some host => exact ⟨host, rfl⟩
  | none => exact ⟨hostPart target, by rw [h]; rfl⟩

end Config

/-! ### The command line -/

/-- The client modes. -/
inductive Cmd
  | create
  | attach (id : String)
  | ls
  | kill (id : String)
  /-- `__connect` -/
  | connect (host id psk : String)

structure Cli where
  target : Option String
  sshPort : Option NonZeroU16
  port : Option NonZeroU16
  cmd : Cmd

/-- `load_client_config`, on what `Config::load` returns. -/
def loadClientConfig (loaded : Except (List String) Config) (cli : Cli) :
    Except (List String) Config :=
  loaded.map fun c => { c.withClientOverrides cli.target cli.port with sshPort := cli.sshPort }

/-- The terminal size, or the default. -/
def terminalSize (size : Option (UInt16 × UInt16)) : UInt16 × UInt16 := size.getD (80, 24)

/-- The request the agent is run with. -/
def Cmd.request (size : Option (UInt16 × UInt16)) : Cmd → Option ControlRequest
  | create => some (.create (terminalSize size).1 (terminalSize size).2)
  | attach id => some (.attach id)
  | ls => some .ls
  | kill id => some (.kill id)
  | connect _ _ _ => none

/-- The arguments of `__serve`, as `create`, `attach`, `ls` and `kill` of `client/bootstrap.rs`
write them. -/
def remoteArgs : ControlRequest → List String
  | .create cols rows =>
    ["__serve", "create", "--cols", s!"{cols}", "--rows", s!"{rows}"]
  | .attach id => ["__serve", "attach", id]
  | .ls => ["__serve", "ls"]
  | .kill id => ["__serve", "kill", id]
  | .onProtocol _ _ | .onPort _ _ => []

/-- A word that the remote shell and the agent take as it is; every id of a session is one. -/
def plainWord (s : String) : Bool := s ≠ "" && s.toList.all Char.isAlphanum

/-- The arguments arrive at the agent as they are. -/
def Cmd.plain : Cmd → Bool
  | attach id | kill id => plainWord id
  | _ => true

/-- The arguments of `ssh`, which joins those after the target with spaces, for the shell. -/
def sshArgs (cfg : Config) (target version : String) (args : List String) : List String :=
  ["-T", "-o", "BatchMode=yes"] ++
    (match cfg.sshPort with
      | some port => ["-p", s!"{port.1}"]
      | none => []) ++
    [target, "sh", "-s", "--", version] ++
    (match cfg.port with
      | some port => ["--port", s!"{port.1}"]
      | none => []) ++ args

/-- What becomes of the `ssh` process. -/
inductive SshEnd
  | spawnFails (e : String)
  /-- The script cannot be sent. -/
  | stdinFails (e : String)
  | waitFails (e : String)
  | exits (success : Bool) (status : String) (stdout stderr : List Char)

/-- `run_ssh`; `debug` is the `{:?}` of a `&str`. -/
def runSsh (J : Json ControlResponse) (debug : String → String) (path version : String)
    (cfg : Config)
    (ssh : List String → SshEnd) (args : List String) : Except (List String) ControlResponse :=
  match cfg.requireSshTarget path with
  | .error e => .error e
  | .ok target =>
    match ssh (sshArgs cfg target version args) with
    | .spawnFails e => .error ["spawning ssh", e]
    | .stdinFails e => .error ["sending bootstrap script to ssh", e]
    | .waitFails e => .error ["waiting for ssh", e]
    | .exits false status _ stderr =>
      .error [s!"ssh to '{target}' failed ({status}): " ++ String.ofList (Lines.trim stderr)]
    | .exits true _ stdout _ =>
      match Lines.lastLine stdout with
      | none => .error ["empty response from server agent"]
      | some line =>
        match J.fromStr (String.ofList (Lines.trim line)) with
        | .ok r => .ok r
        | .error e => .error ["parsing agent response: " ++ debug (String.ofList line), e]

/-- The `{:?}` of `b as char`: the controls, the no-break space and the soft hyphen are escaped. -/
def debugChar (b : UInt8) : String :=
  "'" ++ (match b with
    | 0 => "\\0"
    | 9 => "\\t"
    | 10 => "\\n"
    | 13 => "\\r"
    | 39 => "\\'"
    | 92 => "\\\\"
    | _ =>
      if b < 32 ∨ 127 ≤ b ∧ b ≤ 160 ∨ b = 173 then
        "\\u\x7b" ++ String.ofList (Nat.toDigits 16 b.toNat) ++ "\x7d"
      else String.singleton (Char.ofNat b.toNat)) ++ "'"

/-- What `hex::decode` says of a key that is none. -/
def hexError : Hex.DecodeError → String
  | .oddLength => "Odd number of digits"
  | .invalidDigit c index => s!"Invalid character {debugChar c} at position {index}"

/-- `parse_psk` -/
def parsePsk (pskHex : String) : Except (List String) Psk :=
  match Hex.decode (asBytes pskHex) with
  | .error e => .error [hexError e]
  | .ok bytes =>
    if h : bytes.length = 32 then .ok ⟨bytes.toArray, by simpa using h⟩
    else .error ["psk must be 32 bytes"]

/-- How a client command goes on after the bootstrap. -/
inductive ClientAction
  /-- `run_interactive` -/
  | interactive (host : String) (port : UInt16) (id : String) (psk : Psk)
  /-- The lines printed to stdout. -/
  | printed (lines : List String)
  deriving DecidableEq

/-- What `client_create` and `client_attach` do with the answer. -/
def openSession (host : String) : ControlResponse → Except (List String) ClientAction
  | .bootstrap port id pskHex => (parsePsk pskHex).map (.interactive host port id)
  | .err message => .error [message]
  | .ls _ | .ok => .error ["unexpected response"]

/-- `format!("{:<width$}")` -/
def padded (width : ℕ) (s : String) : String :=
  s ++ String.ofList (List.replicate (width - s.length) ' ')

/-- A row of `client_ls`. -/
def lsRow (id status started cmd : String) : String :=
  padded 10 id ++ " " ++ padded 10 status ++ " " ++ padded 20 started ++ " " ++ cmd

/-- `fmt_time` -/
def fmtTime (secs : UInt64) : String := s!"@{secs}"

/-- What `client_ls` does with the answer. -/
def showSessions : ControlResponse → Except (List String) ClientAction
  | .ls [] => .ok (.printed ["no sessions"])
  | .ls sessions => .ok (.printed (lsRow "ID" "STATUS" "STARTED" "CMD" ::
      sessions.map fun s => lsRow s.id s.status (fmtTime s.started) s.cmd))
  | .err message => .error [message]
  | .bootstrap _ _ _ | .ok => .error ["unexpected response"]

/-- What `client_kill` does with the answer. -/
def showKilled (id : String) : ControlResponse → Except (List String) ClientAction
  | .ok => .ok (.printed ["killed " ++ id])
  | .err message => .error [message]
  | .bootstrap _ _ _ | .ls _ => .error ["unexpected response"]

section Dispatch

variable (J : Json ControlResponse) (debug : String → String) (path version : String)

/-- `client_create` -/
def clientCreate (cfg : Config) (size : Option (UInt16 × UInt16)) (ssh : List String → SshEnd) :
    Except (List String) ClientAction := do
  let host ← cfg.resolveTcpHost path
  let (cols, rows) := terminalSize size
  let r ← runSsh J debug path version cfg ssh (remoteArgs (.create cols rows))
  openSession host r

/-- `client_attach` -/
def clientAttach (cfg : Config) (id : String) (ssh : List String → SshEnd) :
    Except (List String) ClientAction := do
  let host ← cfg.resolveTcpHost path
  let r ← runSsh J debug path version cfg ssh (remoteArgs (.attach id))
  openSession host r

/-- `client_ls` -/
def clientLs (cfg : Config) (ssh : List String → SshEnd) : Except (List String) ClientAction := do
  let r ← runSsh J debug path version cfg ssh (remoteArgs .ls)
  showSessions r

/-- `client_kill` -/
def clientKill (cfg : Config) (id : String) (ssh : List String → SshEnd) :
    Except (List String) ClientAction := do
  let r ← runSsh J debug path version cfg ssh (remoteArgs (.kill id))
  showKilled id r

/-- The client modes of `dispatch`. -/
def dispatch (loaded : Except (List String) Config) (cli : Cli)
    (size : Option (UInt16 × UInt16)) (ssh : List String → SshEnd) :
    Except (List String) ClientAction :=
  match cli.cmd with
  | .connect host id psk =>
    match cli.port with
    | none => .error ["--port is required for __connect"]
    | some port => (parsePsk psk).map (.interactive host port.1 id)
  | .create => do clientCreate J debug path version (← loadClientConfig loaded cli) size ssh
  | .attach id => do clientAttach J debug path version (← loadClientConfig loaded cli) id ssh
  | .ls => do clientLs J debug path version (← loadClientConfig loaded cli) ssh
  | .kill id => do clientKill J debug path version (← loadClientConfig loaded cli) id ssh

end Dispatch

/-! ### What the agent prints -/

/-- The answer of the agent, for what `obtain` returns. -/
def agentAnswer : Except (List String) ControlResponse → ControlResponse
  | .ok r => r
  | .error e => .err (String.intercalate ": " e)

/-- What `run` of `server/agent.rs` prints to stdout. -/
def agentOutput (J : Json ControlResponse) (obtained : Except (List String) ControlResponse) :
    Except String (List Char) :=
  (J.toString (agentAnswer obtained)).map fun line => line.toList ++ ['\n']

/-! ### The way back -/

theorem asBytes_ofList (cs : List Char) :
    asBytes (String.ofList cs) = cs.flatMap String.utf8EncodeChar := by
  rw [asBytes, String.toByteArray_ofList, List.utf8Encode, List.data_toByteArray]

theorem utf8EncodeChar_digitChar {d : ℕ} (h : d < 16) :
    String.utf8EncodeChar (Nat.digitChar d) = [Hex.digit d] := by
  have hall : ∀ d < 16, String.utf8EncodeChar (Nat.digitChar d) = [Hex.digit d] := by decide
  exact hall d h

theorem asBytes_hexEncode (bytes : List UInt8) : asBytes (hexEncode bytes) = Hex.encode bytes := by
  rw [hexEncode, asBytes_ofList, List.flatMap_assoc, Hex.encode]
  refine List.flatMap_congr fun b _ => ?_
  have hlt := b.toNat_lt
  simp [utf8EncodeChar_digitChar (show b.toNat / 16 < 16 by omega),
    utf8EncodeChar_digitChar (show b.toNat % 16 < 16 by omega)]

/-- A key that is sent arrives. -/
theorem parsePsk_hexEncode (psk : Psk) : parsePsk (hexEncode psk.toList) = .ok psk := by
  rw [parsePsk, asBytes_hexEncode, Hex.decode_encode]
  dsimp only
  rw [dif_pos (by simp)]
  rfl

/-- Every id drawn is one `client_send` takes. -/
theorem length_asBytes_hex8 (n : UInt32) : (asBytes (hex8 n)).length = Handshake.sessionIdLen := by
  have hone : ((fun c => (String.utf8EncodeChar c).length) ∘
      fun i => Nat.digitChar (n.toNat / 16 ^ i % 16)) = fun _ => 1 := by
    funext i
    have hdigit := utf8EncodeChar_digitChar (Nat.mod_lt (n.toNat / 16 ^ i) (show 0 < 16 by omega))
    show (String.utf8EncodeChar (n.toNat / 16 ^ i % 16).digitChar).length = 1
    rw [hdigit]
    rfl
  rw [hex8, asBytes_ofList, List.length_flatMap, List.map_map, hone]
  rfl

section Printed

variable {J : Json ControlResponse}

theorem agentOutput_eq_ok {obtained : Except (List String) ControlResponse} {out : List Char}
    (h : agentOutput J obtained = .ok out) :
    ∃ line, J.toString (agentAnswer obtained) = .ok line ∧ out = line.toList ++ ['\n'] := by
  unfold agentOutput at h
  cases hline : J.toString (agentAnswer obtained) with
  | error e =>
    rw [hline] at h
    cases h
  | ok line =>
    rw [hline] at h
    cases h
    exact ⟨line, rfl, rfl⟩

/-- **The answer arrives.**  Where `ssh` succeeds, and what it hands on is what the agent has
printed after whole lines of a login shell, the answer is the one of the agent. -/
theorem runSsh_printed (hJ : J.Lawful) {debug : String → String}
    {path version target line : String} {cfg : Config}
    {ssh : List String → SshEnd} {args : List String} {status : String}
    {noise stderr : List Char} {r : ControlResponse}
    (htarget : cfg.requireSshTarget path = .ok target)
    (hssh : ssh (sshArgs cfg target version args) =
      .exits true status (noise ++ (line.toList ++ ['\n'])) stderr)
    (hnoise : Lines.Whole noise) (hline : J.toString r = .ok line) :
    runSsh J debug path version cfg ssh args = .ok r := by
  have hone := hJ.line r line hline
  have hfrom : J.fromStr (String.ofList (Lines.trim line.toList)) = .ok r := by
    rw [hone.trimmed, String.ofList_toList]
    exact hJ.fromStr r line hline
  unfold runSsh
  rw [htarget]
  dsimp only
  rw [hssh]
  dsimp only
  rw [Lines.lastLine_printed hnoise hone]
  dsimp only
  rw [hfrom]

end Printed

/-! ### Commands that go on -/

section Commands

variable {J : Json ControlResponse} {debug : String → String} {path version : String}
  {size : Option (UInt16 × UInt16)} {ssh : List String → SshEnd}

theorem exists_of_bind_eq_ok {ε α β : Type} {x : Except ε α} {f : α → Except ε β} {b : β}
    (h : x >>= f = .ok b) : ∃ a, x = .ok a ∧ f a = .ok b := by
  cases x with
  | error e => cases h
  | ok a => exact ⟨a, rfl, h⟩

/-- An answer is what `ssh` has handed on. -/
theorem runSsh_eq_ok {cfg : Config} {args : List String} {r : ControlResponse}
    (h : runSsh J debug path version cfg ssh args = .ok r) :
    ∃ target status stdout stderr, cfg.requireSshTarget path = .ok target ∧
      ssh (sshArgs cfg target version args) = .exits true status stdout stderr := by
  unfold runSsh at h
  split at h
  · cases h
  · rename_i target htarget
    split at h
    · cases h
    · cases h
    · cases h
    · cases h
    · rename_i status stdout stderr hssh
      exact ⟨target, status, stdout, stderr, htarget, hssh⟩

/-- What a command makes of the answer to its request. -/
def Cmd.Shows (path : String) (cfg : Config) (r : ControlResponse) (action : ClientAction) :
    Cmd → Prop
  | create | attach _ =>
    ∃ host, cfg.resolveTcpHost path = .ok host ∧ openSession host r = .ok action
  | ls => showSessions r = .ok action
  | kill id => showKilled id r = .ok action
  | connect _ _ _ => False

/-- A command that goes on is `__connect`, or has its answer from `ssh`. -/
theorem dispatch_eq_ok {loaded : Except (List String) Config} {cli : Cli} {action : ClientAction}
    (h : dispatch J debug path version loaded cli size ssh = .ok action) :
    (∃ host id psk' port psk, cli.cmd = .connect host id psk' ∧ cli.port = some port ∧
        parsePsk psk' = .ok psk ∧ action = .interactive host port.1 id psk) ∨
      ∃ cfg op r, loadClientConfig loaded cli = .ok cfg ∧ cli.cmd.request size = some op ∧
        runSsh J debug path version cfg ssh (remoteArgs op) = .ok r ∧
        cli.cmd.Shows path cfg r action := by
  unfold dispatch at h
  cases hcmd : cli.cmd with
  | connect host id psk' =>
    rw [hcmd] at h
    dsimp only at h
    cases hport : cli.port with
    | none =>
      rw [hport] at h
      cases h
    | some port =>
      rw [hport] at h
      dsimp only at h
      cases hpsk : parsePsk psk' with
      | error e =>
        rw [hpsk] at h
        cases h
      | ok psk =>
        rw [hpsk] at h
        cases h
        exact .inl ⟨host, id, psk', port, psk, rfl, rfl, hpsk, rfl⟩
  | create =>
    rw [hcmd] at h
    obtain ⟨cfg, hcfg, h⟩ := exists_of_bind_eq_ok h
    obtain ⟨host, hhost, h⟩ := exists_of_bind_eq_ok h
    obtain ⟨r, hr, h⟩ := exists_of_bind_eq_ok h
    exact .inr ⟨cfg, _, r, hcfg, rfl, hr, host, hhost, h⟩
  | attach id =>
    rw [hcmd] at h
    obtain ⟨cfg, hcfg, h⟩ := exists_of_bind_eq_ok h
    obtain ⟨host, hhost, h⟩ := exists_of_bind_eq_ok h
    obtain ⟨r, hr, h⟩ := exists_of_bind_eq_ok h
    exact .inr ⟨cfg, _, r, hcfg, rfl, hr, host, hhost, h⟩
  | ls =>
    rw [hcmd] at h
    obtain ⟨cfg, hcfg, h⟩ := exists_of_bind_eq_ok h
    obtain ⟨r, hr, h⟩ := exists_of_bind_eq_ok h
    exact .inr ⟨cfg, _, r, hcfg, rfl, hr, h⟩
  | kill id =>
    rw [hcmd] at h
    obtain ⟨cfg, hcfg, h⟩ := exists_of_bind_eq_ok h
    obtain ⟨r, hr, h⟩ := exists_of_bind_eq_ok h
    exact .inr ⟨cfg, _, r, hcfg, rfl, hr, h⟩

/-- An answer from `ssh` is all that a command needs. -/
theorem dispatch_of_shows {loaded : Except (List String) Config} {cli : Cli} {cfg : Config}
    {op : ControlRequest} {r : ControlResponse} {action : ClientAction}
    (hcfg : loadClientConfig loaded cli = .ok cfg)
    (hop : cli.cmd.request size = some op)
    (hr : runSsh J debug path version cfg ssh (remoteArgs op) = .ok r)
    (h : cli.cmd.Shows path cfg r action) :
    dispatch J debug path version loaded cli size ssh = .ok action := by
  unfold dispatch
  cases hcmd : cli.cmd with
  | create =>
    rw [hcmd] at hop h
    cases hop
    obtain ⟨host, hhost, h⟩ := h
    simp only [hcfg, clientCreate, hhost, bind, Except.bind]
    simp only [hr, h]
  | attach id =>
    rw [hcmd] at hop h
    cases hop
    obtain ⟨host, hhost, h⟩ := h
    simp only [hcfg, clientAttach, hhost, hr, h, bind, Except.bind]
  | ls =>
    rw [hcmd] at hop h
    cases hop
    simp only [hcfg, clientLs, hr, bind, Except.bind]
    exact h
  | kill id =>
    rw [hcmd] at hop h
    cases hop
    simp only [hcfg, clientKill, hr, bind, Except.bind]
    exact h
  | connect host id psk =>
    rw [hcmd] at h
    cases h

end Commands

end Thther
