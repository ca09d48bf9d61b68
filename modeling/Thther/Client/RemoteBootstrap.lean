import Mathlib.Logic.Function.Basic
import Thther.Lib.System

/-!
# The remote bootstrap script (`client/remote_bootstrap.sh`)

Any number of runs of the script on one host, of any versions, beside one another and one after
the other; each can be killed between any two steps.  A run is known by its `$$`, and no two that
run at one time have the same.  `scriptStep` is one command of one run; what the system, the
network and the tools answer is part of the event.

`checks` is `sha256sum -c` or `shasum -a 256 -c` on a checksum file and the archive, and `unpack`
is `tar xzf`, with the file `$name/thther` it leaves.

* `Installs.Inv`: what is at `$cached`, and what the runs have in hand;
* `ScriptRun.Brings.run`: a run behind its check comes to its `exec`, whatever the others do;
* `bootstrap_runs_genuine`: what is installed and executed, and that it gets there.
-/

namespace Thther

/-- A file in `$dir`. -/
structure BinFile where
  bytes : List UInt8
  executable : Bool
  deriving DecidableEq

/-- The names the script uses in `$dir`. -/
inductive BinPath
  /-- `thther-$ver` -/
  | cached (version : String)
  /-- `thther-$ver.tmp.$$` -/
  | staged (version : String) (pid : ℕ)
  deriving DecidableEq

/-- The target for `$(uname -s)-$(uname -m)`. -/
def targetOf (system : String) : Option String :=
  if system = "Linux-x86_64" then some "x86_64-unknown-linux-gnu"
  else if system = "Linux-aarch64" ∨ system = "Linux-arm64" then some "aarch64-unknown-linux-gnu"
  else none

/-- `$name` -/
def releaseName (version target : String) : String := "thther-v" ++ version ++ "-" ++ target

/-- `$url` -/
def releaseUrl (version target : String) : String :=
  "https://github.com/lakakala/thther-tty/releases/download/v" ++ version ++ "/" ++
    releaseName version target ++ ".tar.gz"

/-- The URL of the checksum file. -/
def checksumUrl (version target : String) : String := releaseUrl version target ++ ".sha256"

/-- Where a run is; the comment names the command that comes next. -/
inductive ScriptPhase
  /-- `[ -x "$cached" ]` -/
  | testing
  /-- `uname` -/
  | probing
  /-- `mktemp -d` -/
  | making (target : String)
  /-- `fetch "$url"` -/
  | fetching (target : String)
  /-- `fetch "$url.sha256"` -/
  | fetchingSum (target : String) (archive : List UInt8)
  /-- `sha256sum -c` -/
  | checking (target : String) (archive checksum : List UInt8)
  /-- `tar xzf` -/
  | unpacking (archive : List UInt8)
  /-- `mkdir -p`, `chmod +x` -/
  | preparing (binary : List UInt8)
  /-- `mv` to `$cached.tmp.$$` -/
  | staging (binary : List UInt8)
  /-- `mv -f` to `$cached` -/
  | publishing
  /-- `rm -rf "$tmp"` -/
  | cleaning
  /-- `exec "$cached" "$@"` -/
  | executing
  /-- The process has become the agent. -/
  | agent
  /-- The script has ended, with what it has written to stderr last. -/
  | exited (message : Option String)
  | killed
  deriving DecidableEq

/-- The process is there. -/
def ScriptPhase.alive : ScriptPhase → Bool
  | exited _ | killed => false
  | _ => true

/-- A run of the script. -/
structure ScriptRun where
  version : String
  args : List String
  phase : ScriptPhase

/-- A successful `exec`. -/
structure Execution where
  version : String
  args : List String
  binary : List UInt8
  deriving DecidableEq

/-- The host: `$dir`, the runs by their `$$`, and all executions so far. -/
structure Installs where
  files : BinPath → Option BinFile
  runs : ℕ → Option ScriptRun
  execs : List Execution

inductive ScriptEvent
  | start (pid : ℕ) (version : String) (args : List String)
  | test (pid : ℕ)
  | uname (pid : ℕ) (system : String)
  | mktemp (pid : ℕ) (ok : Bool)
  /-- Either `fetch`, with what it has downloaded. -/
  | fetch (pid : ℕ) (content : Option (List UInt8))
  /-- The check, if there is a tool for it. -/
  | check (pid : ℕ) (tool : Bool)
  | unpack (pid : ℕ)
  | prepare (pid : ℕ) (ok : Bool)
  /-- `mv` between two file systems has written that many bytes. -/
  | copy (pid n : ℕ)
  /-- `mv` to the temporary name returns. -/
  | stage (pid : ℕ) (ok : Bool)
  | publish (pid : ℕ) (ok : Bool)
  | clean (pid : ℕ) (ok : Bool)
  | exec (pid : ℕ)
  | kill (pid : ℕ)

/-- The run an event is about. -/
def ScriptEvent.pid : ScriptEvent → ℕ
  | start pid _ _ | test pid | uname pid _ | mktemp pid _ | fetch pid _ | check pid _
  | unpack pid | prepare pid _ | copy pid _ | stage pid _ | publish pid _ | clean pid _
  | exec pid | kill pid => pid

/-- `$dir/thther-$ver` -/
def cachedPath (home version : String) : String := home ++ "/.thther/bin/thther-" ++ version

/-- `die` -/
def die (message : String) : ScriptPhase := .exited (some ("thther: " ++ message))

namespace Installs

/-- An executable file is at `$cached`. -/
def isInstalled (s : Installs) (version : String) : Bool :=
  match s.files (.cached version) with
  | some f => f.executable
  | none => false

/-- Run `pid` goes on. -/
def goto (s : Installs) (pid : ℕ) (r : ScriptRun) (phase : ScriptPhase) : Installs :=
  { s with runs := Function.update s.runs pid (some { r with phase }) }

/-- A file is written. -/
def put (s : Installs) (path : BinPath) (f : Option BinFile) : Installs :=
  { s with files := Function.update s.files path f }

end Installs

section Step

variable (home : String) (checks : List UInt8 → List UInt8 → Bool)
  (unpack : List UInt8 → Option (List UInt8))

/-- One command of a run that is there. -/
def ScriptRun.step (s : Installs) (pid : ℕ) (r : ScriptRun) : ScriptEvent → Option Installs
  | .start _ _ _ => none
  | .test _ =>
    if r.phase = .testing then
      some (s.goto pid r (if s.isInstalled r.version then .executing else .probing))
    else none
  | .uname _ system =>
    if r.phase = .probing then
      some (s.goto pid r (match targetOf system with
        | some target => .making target
        | none => die ("no prebuilt binary for " ++ system ++ "; place the binary at " ++
            cachedPath home r.version ++ " manually")))
    else none
  | .mktemp _ ok =>
    match r.phase with
    | .making target => some (s.goto pid r (if ok then .fetching target else .exited none))
    | _ => none
  | .fetch _ content =>
    match r.phase with
    | .fetching target =>
      some (s.goto pid r (match content with
        | some archive => .fetchingSum target archive
        | none => die ("download failed: " ++ releaseUrl r.version target ++
            " (needs curl or wget and access to github.com)")))
    | .fetchingSum target archive =>
      some (s.goto pid r (match content with
        | some checksum => .checking target archive checksum
        | none => die ("download failed: " ++ checksumUrl r.version target)))
    | _ => none
  | .check _ tool =>
    match r.phase with
    | .checking target archive checksum =>
      some (s.goto pid r (
        if tool then
          if checks checksum archive then .unpacking archive
          else die ("checksum mismatch for " ++ releaseName r.version target ++ ".tar.gz")
        else die "neither sha256sum nor shasum found; cannot verify download"))
    | _ => none
  | .unpack _ =>
    match r.phase with
    | .unpacking archive =>
      some (s.goto pid r (match unpack archive with
        | some binary => .preparing binary
        | none => .exited none))
    | _ => none
  | .prepare _ ok =>
    match r.phase with
    | .preparing binary => some (s.goto pid r (if ok then .staging binary else .exited none))
    | _ => none
  | .copy _ n =>
    match r.phase with
    | .staging binary =>
      some (s.put (.staged r.version pid) (some ⟨binary.take n, false⟩))
    | _ => none
  | .stage _ ok =>
    match r.phase with
    | .staging binary =>
      if ok then
        some ((s.put (.staged r.version pid) (some ⟨binary, true⟩)).goto pid r .publishing)
      else some (s.goto pid r (.exited none))
    | _ => none
  | .publish _ ok =>
    if r.phase = .publishing then
      if ok then
        some (((s.put (.cached r.version) (s.files (.staged r.version pid))).put
          (.staged r.version pid) none).goto pid r .cleaning)
      else some (s.goto pid r (.exited none))
    else none
  | .clean _ ok =>
    if r.phase = .cleaning then
      some (s.goto pid r (if ok then .executing else .exited none))
    else none
  | .exec _ =>
    if r.phase = .executing then
      match s.files (.cached r.version) with
      | some f =>
        if f.executable then
          some { s.goto pid r .agent with execs := s.execs ++ [⟨r.version, r.args, f.bytes⟩] }
        else some (s.goto pid r (.exited none))
      | none => some (s.goto pid r (.exited none))
    else none
  | .kill _ => if r.phase.alive then some (s.goto pid r .killed) else none

/-- One event. -/
def scriptStep (s : Installs) (e : ScriptEvent) : Option Installs :=
  match e, s.runs e.pid with
  | .start pid version args, none =>
    some { s with runs := Function.update s.runs pid (some ⟨version, args, .testing⟩) }
  | .start pid version args, some r =>
    -- the id of a process that is gone is free
    if r.phase.alive then none
    else some { s with runs := Function.update s.runs pid (some ⟨version, args, .testing⟩) }
  | _, none => none
  | e, some r => r.step home checks unpack s e.pid e

/-- All runs, from any contents of `$dir`. -/
def scriptSystem (files : BinPath → Option BinFile) : System Installs ScriptEvent where
  init s := s = ⟨files, fun _ => none, []⟩
  step := scriptStep home checks unpack

end Step

/-! ### What gets there -/

section Released

variable {home : String} {checks : List UInt8 → List UInt8 → Bool}
  {unpack : List UInt8 → Option (List UInt8)} {files : BinPath → Option BinFile}
  {sums : String → List UInt8}

/-- The network delivers any archive, but no checksum file other than the one published at the
URL. -/
def Delivers (sums : String → List UInt8) (s : Installs) : ScriptEvent → Prop
  | .fetch pid (some content) => ∀ r target archive, s.runs pid = some r →
    r.phase = .fetchingSum target archive → content = sums (checksumUrl r.version target)
  | _ => True

variable (checks sums) in
/-- The archive passes the check against the checksum that is published for this version and one of
the two targets. -/
def Verified (version : String) (archive : List UInt8) : Prop :=
  ∃ system target, targetOf system = some target ∧
    checks (sums (checksumUrl version target)) archive = true

variable (checks unpack sums) in
/-- The whole binary of such an archive. -/
def Released (version : String) (binary : List UInt8) : Prop :=
  ∃ archive, Verified checks sums version archive ∧ unpack archive = some binary

variable (checks unpack sums) in
/-- What a run has in hand. -/
def ScriptRun.Ok (s : Installs) (pid : ℕ) (r : ScriptRun) : Prop :=
  match r.phase with
  | .making target | .fetching target | .fetchingSum target _ =>
    ∃ system, targetOf system = some target
  | .checking target _ checksum => (∃ system, targetOf system = some target) ∧
    checksum = sums (checksumUrl r.version target)
  | .unpacking archive => Verified checks sums r.version archive
  | .preparing binary | .staging binary => Released checks unpack sums r.version binary
  | .publishing => ∃ binary, s.files (.staged r.version pid) = some ⟨binary, true⟩ ∧
    Released checks unpack sums r.version binary
  | .cleaning | .executing => s.isInstalled r.version = true
  | _ => True

variable (checks unpack files sums) in
/-- The invariant. -/
structure Installs.Inv (s : Installs) : Prop where
  cached : ∀ version, s.files (.cached version) = files (.cached version) ∨
    ∃ binary, s.files (.cached version) = some ⟨binary, true⟩ ∧
      Released checks unpack sums version binary
  runs : ∀ pid r, s.runs pid = some r → r.Ok checks unpack sums s pid
  execs : ∀ x ∈ s.execs, files (.cached x.version) = some ⟨x.binary, true⟩ ∨
    Released checks unpack sums x.version x.binary

variable {s s' : Installs} {pid : ℕ} {r : ScriptRun}

theorem Installs.isInstalled_iff {version : String} : s.isInstalled version = true ↔
    ∃ binary, s.files (.cached version) = some ⟨binary, true⟩ := by
  unfold Installs.isInstalled
  cases s.files (.cached version) with
  | none => simp
  | some f =>
    obtain ⟨bytes, executable⟩ := f
    simp

theorem Installs.put_cached (version : String) (q : ℕ) (f : Option BinFile) (w : String) :
    (s.put (.staged version q) f).files (.cached w) = s.files (.cached w) := by
  have hne : BinPath.cached w ≠ .staged version q := by simp
  simp only [put, Function.update_of_ne hne]

theorem Installs.put_staged {version w : String} {p q : ℕ} (hq : q ≠ p) (f : Option BinFile) :
    (s.put (.staged version p) f).files (.staged w q) = s.files (.staged w q) := by
  have hne : BinPath.staged w q ≠ .staged version p := by simp [hq]
  simp only [put, Function.update_of_ne hne]

/-- A run that keeps its own temporary file and the installed files has in hand what it had. -/
theorem ScriptRun.Ok.mono (h : r.Ok checks unpack sums s pid)
    (hstaged : s'.files (.staged r.version pid) = s.files (.staged r.version pid))
    (hinstalled : ∀ version, s.isInstalled version = true → s'.isInstalled version = true) :
    r.Ok checks unpack sums s' pid := by
  obtain ⟨version, args, phase⟩ := r
  cases phase with
  | publishing =>
    obtain ⟨binary, hget, hreleased⟩ := h
    exact ⟨binary, hstaged.trans hget, hreleased⟩
  | cleaning => exact hinstalled _ h
  | executing => exact hinstalled _ h
  | _ => exact h

/-- Run `pid` goes on to another phase; the files of the others stay, and what is installed stays
as it is or is replaced by a release. -/
theorem Installs.Inv.update (h : s.Inv checks unpack files sums)
    (hruns : s'.runs = Function.update s.runs pid (some r))
    (hcached : ∀ version, s'.files (.cached version) = s.files (.cached version) ∨
      ∃ binary, s'.files (.cached version) = some ⟨binary, true⟩ ∧
        Released checks unpack sums version binary)
    (hstaged : ∀ version q, q ≠ pid → s'.files (.staged version q) = s.files (.staged version q))
    (hexecs : ∀ x ∈ s'.execs, files (.cached x.version) = some ⟨x.binary, true⟩ ∨
      Released checks unpack sums x.version x.binary)
    (hr : r.Ok checks unpack sums s' pid) : s'.Inv checks unpack files sums := by
  have hinstalled : ∀ version, s.isInstalled version = true → s'.isInstalled version = true := by
    intro version hv
    rcases hcached version with hsame | ⟨binary, hget, -⟩
    · unfold Installs.isInstalled at hv ⊢
      rw [hsame]
      exact hv
    · exact Installs.isInstalled_iff.2 ⟨binary, hget⟩
  refine ⟨fun version => ?_, fun q x hx => ?_, hexecs⟩
  · rcases hcached version with hsame | hnew
    · rw [hsame]
      exact h.cached version
    · exact .inr hnew
  · rw [hruns] at hx
    by_cases hq : q = pid
    · subst hq
      rw [Function.update_self, Option.some.injEq] at hx
      rw [← hx]
      exact hr
    · rw [Function.update_of_ne hq] at hx
      exact (h.runs q x hx).mono (hstaged _ q hq) hinstalled

/-- Run `pid` goes on to another phase and writes nothing. -/
theorem Installs.Inv.goto (h : s.Inv checks unpack files sums) {phase : ScriptPhase}
    (hr : ScriptRun.Ok checks unpack sums s pid { r with phase }) :
    (s.goto pid r phase).Inv checks unpack files sums :=
  h.update rfl (fun _ => .inl rfl) (fun _ _ _ => rfl) h.execs hr

theorem Installs.goto_self (hr : s.runs pid = some r) : s.goto pid r r.phase = s := by
  unfold Installs.goto
  rw [← hr, Function.update_eq_self]

/-- Run `pid` writes its temporary file. -/
theorem Installs.Inv.put_staged (h : s.Inv checks unpack files sums) {version : String}
    {f : Option BinFile} {phase : ScriptPhase}
    (hr : ScriptRun.Ok checks unpack sums (s.put (.staged version pid) f) pid
      { r with phase }) :
    ((s.put (.staged version pid) f).goto pid r phase).Inv checks unpack files sums := by
  refine h.update rfl ?_ ?_ h.execs hr
  · intro w
    exact .inl (put_cached version pid f w)
  · intro w q hq
    exact Installs.put_staged hq f

/-- An executable file at `$cached` was there before, or is a release. -/
theorem Installs.Inv.origin (h : s.Inv checks unpack files sums) {version : String}
    {binary : List UInt8} (hget : s.files (.cached version) = some ⟨binary, true⟩) :
    files (.cached version) = some ⟨binary, true⟩ ∨
      Released checks unpack sums version binary := by
  rcases h.cached version with hsame | ⟨b, hb, hreleased⟩
  · exact .inl (hsame.symm.trans hget)
  · rw [hget, Option.some.injEq, BinFile.mk.injEq] at hb
    rw [hb.1]
    exact .inr hreleased

/-- What a command of a run can do. -/
theorem Installs.Inv.step_run (h : s.Inv checks unpack files sums) {e : ScriptEvent}
    (hr : s.runs e.pid = some r) (hserved : Delivers sums s e)
    (hs : r.step home checks unpack s e.pid e = some s') : s'.Inv checks unpack files sums := by
  have hok := h.runs _ _ hr
  obtain ⟨version, args, phase⟩ := r
  cases e with
  | start pid version args => cases hs
  | test pid =>
    simp only [ScriptRun.step] at hs
    split_ifs at hs with hphase hinst
    · cases hs
      exact h.goto hinst
    · cases hs
      exact h.goto trivial
  | uname pid system =>
    simp only [ScriptRun.step] at hs
    split_ifs at hs
    cases hs
    refine h.goto ?_
    cases htarget : targetOf system with
    | none => trivial
    | some target => exact ⟨system, htarget⟩
  | mktemp pid ok =>
    cases phase <;> simp only [ScriptRun.step, reduceCtorEq] at hs
    cases hs
    refine h.goto ?_
    cases ok with
    | true => exact hok
    | false => trivial
  | fetch pid content =>
    cases phase <;> simp only [ScriptRun.step, reduceCtorEq] at hs
    · cases hs
      refine h.goto ?_
      cases content with
      | none => trivial
      | some archive => exact hok
    · cases hs
      refine h.goto ?_
      cases content with
      | none => trivial
      | some checksum =>
        have hsum := hserved _ _ _ hr rfl
        exact ⟨hok, hsum⟩
  | check pid tool =>
    cases phase <;> simp only [ScriptRun.step, reduceCtorEq] at hs
    rename_i target archive checksum
    cases hs
    refine h.goto ?_
    obtain ⟨⟨system, htarget⟩, hsum⟩ := hok
    split_ifs with htool hcheck
    · rw [hsum] at hcheck
      exact ⟨system, target, htarget, hcheck⟩
    · trivial
    · trivial
  | unpack pid =>
    cases phase <;> simp only [ScriptRun.step, reduceCtorEq] at hs
    rename_i archive
    cases hs
    refine h.goto ?_
    cases hunpack : unpack archive with
    | none => trivial
    | some binary => exact ⟨archive, hok, hunpack⟩
  | prepare pid ok =>
    cases phase <;> simp only [ScriptRun.step, reduceCtorEq] at hs
    cases hs
    refine h.goto ?_
    cases ok with
    | true => exact hok
    | false => trivial
  | copy pid n =>
    cases phase <;> simp only [ScriptRun.step, reduceCtorEq] at hs
    rename_i binary
    cases hs
    have hnext : ((s.put (.staged version pid) (some ⟨binary.take n, false⟩)).goto pid
        ⟨version, args, .staging binary⟩ (.staging binary)).Inv checks unpack files sums :=
      h.put_staged hok
    have hself : (s.put (.staged version pid) (some ⟨binary.take n, false⟩)).goto pid
        ⟨version, args, .staging binary⟩ (.staging binary) =
          s.put (.staged version pid) (some ⟨binary.take n, false⟩) := Installs.goto_self hr
    rw [hself] at hnext
    exact hnext
  | stage pid ok =>
    cases phase <;> simp only [ScriptRun.step, reduceCtorEq] at hs
    rename_i binary
    split_ifs at hs
    · cases hs
      exact h.put_staged ⟨binary, Function.update_self _ _ _, hok⟩
    · cases hs
      exact h.goto trivial
  | publish pid ok =>
    simp only [ScriptRun.step] at hs
    split_ifs at hs with hphase hmoved
    · cases hs
      subst hphase
      obtain ⟨binary, hget, hreleased⟩ := hok
      change s.files (.staged version pid) = _ at hget
      have hself : ((s.put (.cached version) (some ⟨binary, true⟩)).put
          (.staged version pid) none).files (.cached version) = some ⟨binary, true⟩ := by
        rw [Installs.put_cached]
        exact Function.update_self _ _ _
      rw [show (ScriptEvent.publish pid ok).pid = pid from rfl, hget]
      refine h.update rfl (fun w => ?_) (fun w q hq => ?_) h.execs
        (Installs.isInstalled_iff.2 ⟨binary, hself⟩)
      · by_cases hw : w = version
        · subst hw
          exact .inr ⟨binary, hself, hreleased⟩
        · refine .inl ((Installs.put_cached version pid none w).trans ?_)
          exact Function.update_of_ne (by simpa using hw) _ _
      · have hne : BinPath.staged w q ≠ .cached version := by simp
        refine (Installs.put_staged hq none).trans ?_
        simp only [Installs.put, Function.update_of_ne hne]
    · cases hs
      exact h.goto trivial
  | clean pid ok =>
    simp only [ScriptRun.step] at hs
    split_ifs at hs with hphase hcleaned
    · cases hs
      subst hphase
      exact h.goto hok
    · cases hs
      exact h.goto trivial
  | exec pid =>
    simp only [ScriptRun.step] at hs
    split_ifs at hs
    split at hs
    · rename_i f hf
      split_ifs at hs with hexec
      · cases hs
        refine h.update rfl (fun _ => .inl rfl) (fun _ _ _ => rfl) ?_ trivial
        intro x hx
        rcases List.mem_append.1 hx with hx | hx
        · exact h.execs x hx
        · rw [List.mem_singleton.1 hx]
          obtain ⟨bytes, executable⟩ := f
          cases hexec
          exact h.origin hf
      · cases hs
        exact h.goto trivial
    · cases hs
      exact h.goto trivial
  | kill pid =>
    simp only [ScriptRun.step] at hs
    split_ifs at hs
    cases hs
    exact h.goto trivial

/-- A new run has nothing in hand. -/
theorem Installs.Inv.start (h : s.Inv checks unpack files sums) (version : String)
    (args : List String) :
    Installs.Inv checks unpack files sums
      { s with runs := Function.update s.runs pid (some ⟨version, args, .testing⟩) } :=
  h.update rfl (fun _ => .inl rfl) (fun _ _ _ => rfl) h.execs trivial

theorem Installs.Inv.step (h : s.Inv checks unpack files sums) {e : ScriptEvent}
    (hserved : Delivers sums s e) (hs : scriptStep home checks unpack s e = some s') :
    s'.Inv checks unpack files sums := by
  unfold scriptStep at hs
  split at hs
  · cases hs
    exact h.start _ _
  · split_ifs at hs
    cases hs
    exact h.start _ _
  · cases hs
  · rename_i r hr
    exact h.step_run hr hserved hs

/-- Only `mv -f` changes what is at `$cached`. -/
theorem ScriptRun.cached_step {e : ScriptEvent}
    (hs : r.step home checks unpack s pid e = some s') (version : String) :
    s'.files (.cached version) = s.files (.cached version) ∨
      (∃ q ok, e = .publish q ok) ∧ r.phase = .publishing ∧ r.version = version ∧
        s'.files (.cached version) = s.files (.staged version pid) := by
  obtain ⟨w, args, phase⟩ := r
  cases e with
  | copy _ n =>
    cases phase <;> simp only [ScriptRun.step, reduceCtorEq] at hs
    cases hs
    exact .inl (Installs.put_cached w pid _ version)
  | stage _ ok =>
    cases phase <;> simp only [ScriptRun.step, reduceCtorEq] at hs
    rename_i binary
    split_ifs at hs
    · cases hs
      exact .inl (Installs.put_cached w pid (some ⟨binary, true⟩) version)
    · cases hs
      exact .inl rfl
  | publish q ok =>
    simp only [ScriptRun.step] at hs
    split_ifs at hs with hphase hmoved
    · cases hs
      have hclear : ((s.put (.cached w) (s.files (.staged w pid))).put (.staged w pid)
          none).files (.cached version) =
            (s.put (.cached w) (s.files (.staged w pid))).files (.cached version) :=
        Installs.put_cached w pid none version
      by_cases hv : version = w
      · subst hv
        exact .inr ⟨⟨q, ok, rfl⟩, hphase, rfl, hclear.trans (Function.update_self _ _ _)⟩
      · have hne : BinPath.cached version ≠ .cached w := by simpa using hv
        exact .inl (hclear.trans (Function.update_of_ne hne _ _))
    · cases hs
      exact .inl rfl
  | _ =>
    -- no other command writes to the directory
    refine .inl ?_
    simp only [ScriptRun.step] at hs
    repeat' split at hs
    all_goals first
      | cases hs; rfl
      | cases hs

theorem scriptStep_cached {e : ScriptEvent} (hs : scriptStep home checks unpack s e = some s')
    (version : String) : s'.files (.cached version) = s.files (.cached version) ∨
      (∃ q ok, e = .publish q ok) ∧ ∃ r, s.runs e.pid = some r ∧ r.phase = .publishing ∧
        r.version = version ∧
        s'.files (.cached version) = s.files (.staged version e.pid) := by
  unfold scriptStep at hs
  split at hs
  · cases hs
    exact .inl rfl
  · split_ifs at hs
    cases hs
    exact .inl rfl
  · cases hs
  · rename_i r hr
    rcases ScriptRun.cached_step hs version with hsame | ⟨hpublish, hmoved⟩
    · exact .inl hsame
    · exact .inr ⟨hpublish, _, hr, hmoved⟩

/-- What a run publishes is a release. -/
theorem Installs.Inv.cached_step (h : s.Inv checks unpack files sums) {e : ScriptEvent}
    (hs : scriptStep home checks unpack s e = some s') (version : String) :
    s'.files (.cached version) = s.files (.cached version) ∨
      ∃ binary, s'.files (.cached version) = some ⟨binary, true⟩ ∧
        Released checks unpack sums version binary := by
  rcases scriptStep_cached hs version with hsame | ⟨-, r, hr, hphase, rfl, hmoved⟩
  · exact .inl hsame
  · have hok := h.runs _ _ hr
    unfold ScriptRun.Ok at hok
    rw [hphase] at hok
    obtain ⟨binary, hget, hreleased⟩ := hok
    exact .inr ⟨binary, hmoved.trans hget, hreleased⟩

/-- What is installed stays installed. -/
theorem Installs.Inv.installed_step (h : s.Inv checks unpack files sums) {e : ScriptEvent}
    (hs : scriptStep home checks unpack s e = some s') {version : String}
    (hv : s.isInstalled version = true) : s'.isInstalled version = true := by
  rcases h.cached_step hs version with hsame | ⟨binary, hget, -⟩
  · unfold Installs.isInstalled at hv ⊢
    rw [hsame]
    exact hv
  · exact Installs.isInstalled_iff.2 ⟨binary, hget⟩

theorem installs_inv
    (hs : (scriptSystem home checks unpack files).ReachableWith (Delivers sums) s) :
    s.Inv checks unpack files sums := by
  refine System.invariant_with (fun s₁ hi => ?_) (fun s₁ e s₂ h hserved hst => ?_) hs
  · subst hi
    exact ⟨fun version => .inl rfl, fun _ _ => nofun, fun _ => nofun⟩
  · exact h.step hserved hst

/-! ### From the check to the `exec` -/

/-- The commands of run `pid`, without the writes to its temporary file. -/
def ScriptEvent.isCommand (pid : ℕ) : ScriptEvent → Bool
  | copy _ _ => false
  | e => e.pid = pid

/-- The commands that lead a run that has checked its download to its `exec`, all successful. -/
def ScriptPhase.toExec (pid : ℕ) : ScriptPhase → List ScriptEvent
  | unpacking _ => [.unpack pid, .prepare pid true, .stage pid true, .publish pid true,
    .clean pid true, .exec pid]
  | preparing _ => [.prepare pid true, .stage pid true, .publish pid true, .clean pid true,
    .exec pid]
  | staging _ => [.stage pid true, .publish pid true, .clean pid true, .exec pid]
  | publishing => [.publish pid true, .clean pid true, .exec pid]
  | cleaning => [.clean pid true, .exec pid]
  | executing => [.exec pid]
  | _ => []

variable (unpack) in
/-- The run has a `good` binary in hand or has published one, or it has executed one after the first
`n` executions. -/
def ScriptRun.Brings (good : List UInt8 → Prop) (n : ℕ) (s : Installs) (pid : ℕ) (r : ScriptRun) :
    Prop :=
  match r.phase with
  | .unpacking archive => ∃ binary, unpack archive = some binary ∧ good binary
  | .preparing binary | .staging binary => good binary
  | .publishing => ∃ binary, s.files (.staged r.version pid) = some ⟨binary, true⟩ ∧ good binary
  | .cleaning | .executing =>
    ∃ binary, s.files (.cached r.version) = some ⟨binary, true⟩ ∧ good binary
  | .agent => ∃ binary, good binary ∧ ⟨r.version, r.args, binary⟩ ∈ s.execs.drop n
  | _ => False

variable (home checks unpack) in
/-- Unless the command is one of run `pid`, a `good` binary at `$cached` is kept or replaced by
another. -/
def KeepsGood (good : List UInt8 → Prop) (pid : ℕ) (version : String) (s : Installs)
    (e : ScriptEvent) : Prop :=
  e.pid ≠ pid → ∀ s', scriptStep home checks unpack s e = some s' →
    (∃ binary, s.files (.cached version) = some ⟨binary, true⟩ ∧ good binary) →
    ∃ binary, s'.files (.cached version) = some ⟨binary, true⟩ ∧ good binary

section Brings

variable {good : List UInt8 → Prop} {n : ℕ}

theorem ScriptRun.Brings.mono (h : r.Brings unpack good n s pid)
    (hstaged : s'.files (.staged r.version pid) = s.files (.staged r.version pid))
    (hcached : (∃ binary, s.files (.cached r.version) = some ⟨binary, true⟩ ∧ good binary) →
      ∃ binary, s'.files (.cached r.version) = some ⟨binary, true⟩ ∧ good binary)
    (hexecs : s.execs <+: s'.execs) : r.Brings unpack good n s' pid := by
  obtain ⟨version, args, phase⟩ := r
  cases phase with
  | publishing =>
    obtain ⟨binary, hget, hgood⟩ := h
    exact ⟨binary, hstaged.trans hget, hgood⟩
  | cleaning => exact hcached h
  | executing => exact hcached h
  | agent =>
    obtain ⟨binary, hgood, hmem⟩ := h
    obtain ⟨new, hnew⟩ := hexecs
    refine ⟨binary, hgood, ?_⟩
    rw [← hnew, List.drop_append]
    exact List.mem_append_left _ hmem
  | _ => exact h

/-- A command of run `q` is nothing to the others. -/
theorem ScriptRun.step_other {q : ℕ} {e : ScriptEvent}
    (hs : r.step home checks unpack s q e = some s') (hne : q ≠ pid) :
    s'.runs pid = s.runs pid ∧
      (∀ version, s'.files (.staged version pid) = s.files (.staged version pid)) ∧
      s.execs <+: s'.execs := by
  have hrun : ∀ r : Option ScriptRun, Function.update s.runs q r pid = s.runs pid := fun _ =>
    Function.update_of_ne hne.symm _ _
  obtain ⟨w, args, phase⟩ := r
  cases e with
  | copy _ n =>
    cases phase <;> simp only [ScriptRun.step, reduceCtorEq] at hs
    cases hs
    exact ⟨rfl, fun _ => Installs.put_staged hne.symm _, List.prefix_rfl⟩
  | stage _ ok =>
    cases phase <;> simp only [ScriptRun.step, reduceCtorEq] at hs
    split_ifs at hs
    · cases hs
      exact ⟨hrun _, fun _ => Installs.put_staged hne.symm _, List.prefix_rfl⟩
    · cases hs
      exact ⟨hrun _, fun _ => rfl, List.prefix_rfl⟩
  | publish _ ok =>
    simp only [ScriptRun.step] at hs
    split_ifs at hs
    · cases hs
      refine ⟨hrun _, fun version => ?_, List.prefix_rfl⟩
      have hcached : BinPath.staged version pid ≠ .cached w := by simp
      refine (Installs.put_staged hne.symm none).trans ?_
      simp only [Installs.put, Function.update_of_ne hcached]
    · cases hs
      exact ⟨hrun _, fun _ => rfl, List.prefix_rfl⟩
  | _ =>
    simp only [ScriptRun.step] at hs
    repeat' split at hs
    all_goals first
      | cases hs; exact ⟨hrun _, fun _ => rfl, List.prefix_rfl⟩
      | cases hs; exact ⟨hrun _, fun _ => rfl, List.prefix_append _ _⟩
      | cases hs

theorem scriptStep_other {e : ScriptEvent} (hs : scriptStep home checks unpack s e = some s')
    (hne : e.pid ≠ pid) : s'.runs pid = s.runs pid ∧
      (∀ version, s'.files (.staged version pid) = s.files (.staged version pid)) ∧
      s.execs <+: s'.execs := by
  unfold scriptStep at hs
  split at hs
  · cases hs
    exact ⟨Function.update_of_ne hne.symm _ _, fun _ => rfl, List.prefix_rfl⟩
  · split_ifs at hs
    cases hs
    exact ⟨Function.update_of_ne hne.symm _ _, fun _ => rfl, List.prefix_rfl⟩
  · cases hs
  · exact ScriptRun.step_other hs hne

/-- The command that comes next succeeds. -/
theorem ScriptRun.Brings.command (hr : s.runs pid = some r) (h : r.Brings unpack good n s pid)
    (hn : n ≤ s.execs.length) {e : ScriptEvent} {es : List ScriptEvent}
    (hnext : r.phase.toExec pid = e :: es) :
    ∃ s' phase, scriptStep home checks unpack s e = some s' ∧
      s'.runs pid = some { r with phase } ∧ phase.toExec pid = es ∧
      ScriptRun.Brings unpack good n s' pid { r with phase } ∧ n ≤ s'.execs.length := by
  obtain ⟨version, args, phase⟩ := r
  have hstep : e.pid = pid → (∀ q v a, e ≠ .start q v a) → scriptStep home checks unpack s e =
      ScriptRun.step home checks unpack s pid ⟨version, args, phase⟩ e := by
    rintro rfl hstart
    unfold scriptStep
    rw [hr]
    cases e with
    | start q v a => exact absurd rfl (hstart q v a)
    | _ => rfl
  have hrun : ∀ s : Installs, ∀ next, (s.goto pid ⟨version, args, phase⟩ next).runs pid =
      some ⟨version, args, next⟩ := fun s next => Function.update_self _ _ _
  cases phase with
  | unpacking archive =>
    cases hnext
    obtain ⟨binary, hunpack, hgood⟩ := h
    rw [hstep rfl fun _ _ _ => by simp]
    simp only [ScriptRun.step, hunpack]
    exact ⟨_, .preparing binary, rfl, hrun s _, rfl, hgood, hn⟩
  | preparing binary =>
    cases hnext
    rw [hstep rfl fun _ _ _ => by simp]
    exact ⟨_, .staging binary, rfl, hrun s _, rfl, h, hn⟩
  | staging binary =>
    cases hnext
    rw [hstep rfl fun _ _ _ => by simp]
    exact ⟨_, .publishing, rfl, hrun _ _, rfl, ⟨binary, Function.update_self _ _ _, h⟩, hn⟩
  | publishing =>
    cases hnext
    obtain ⟨binary, hget, hgood⟩ := h
    rw [hstep rfl fun _ _ _ => by simp]
    refine ⟨_, .cleaning, rfl, hrun _ _, rfl, ⟨binary, ?_, hgood⟩, hn⟩
    refine (Installs.put_cached version pid none version).trans ?_
    exact (Function.update_self _ _ _).trans hget
  | cleaning =>
    cases hnext
    rw [hstep rfl fun _ _ _ => by simp]
    exact ⟨_, .executing, rfl, hrun s _, rfl, h, hn⟩
  | executing =>
    cases hnext
    obtain ⟨binary, hget, hgood⟩ := h
    change s.files (.cached version) = _ at hget
    rw [hstep rfl fun _ _ _ => by simp]
    simp only [ScriptRun.step, hget, if_true]
    refine ⟨_, .agent, rfl, hrun s _, rfl, ⟨binary, hgood, ?_⟩, ?_⟩
    · rw [List.drop_append_of_le_length hn]
      exact List.mem_append_right _ (List.mem_singleton_self _)
    · rw [List.length_append]
      omega
  | _ => cases hnext

/-- All of them succeed, if they come one after the other. -/
theorem ScriptRun.Brings.completes (hr : s.runs pid = some r) (h : r.Brings unpack good n s pid)
    (hn : n ≤ s.execs.length) :
    ∃ s', (scriptSystem home checks unpack files).run s (r.phase.toExec pid) = some s' := by
  generalize hes : r.phase.toExec pid = es
  induction es generalizing s r with
  | nil => exact ⟨s, rfl⟩
  | cons e es ih =>
    obtain ⟨s₁, phase, hst, hr₁, hnext, h₁, hn₁⟩ := h.command hr hn hes
    obtain ⟨s', hrun⟩ := ih hr₁ h₁ hn₁ hnext
    refine ⟨s', ?_⟩
    rw [System.run_cons]
    exact Option.bind_eq_some_iff.2 ⟨s₁, hst, hrun⟩

/-- Whatever the other runs do in between, a run all of whose commands succeed executes a `good`
binary. -/
theorem ScriptRun.Brings.run {es : List ScriptEvent} (hr : s.runs pid = some r)
    (h : r.Brings unpack good n s pid) (hn : n ≤ s.execs.length)
    (hown : es.filter (·.isCommand pid) = r.phase.toExec pid)
    (hkeep : (scriptSystem home checks unpack files).RunMeets
      (KeepsGood home checks unpack good pid r.version) s es)
    (hrun : (scriptSystem home checks unpack files).run s es = some s') :
    ∃ binary, good binary ∧ ⟨r.version, r.args, binary⟩ ∈ s'.execs.drop n := by
  induction es generalizing s r with
  | nil =>
    cases hrun
    obtain ⟨version, args, phase⟩ := r
    cases phase with
    | agent => exact h
    | unpacking | preparing | staging | publishing | cleaning | executing => cases hown
    | _ => exact h.elim
  | cons e es ih =>
    rw [System.run_cons, Option.bind_eq_some_iff] at hrun
    obtain ⟨s₁, hst, hrun⟩ := hrun
    obtain ⟨hke, hkeep⟩ := hkeep
    rw [hst] at hkeep
    change scriptStep home checks unpack s e = some s₁ at hst
    cases hcommand : e.isCommand pid with
    | true =>
      rw [List.filter_cons_of_pos hcommand] at hown
      obtain ⟨s₂, phase, hst₂, hr₂, hnext, h₂, hn₂⟩ := h.command hr hn hown.symm
      rw [hst, Option.some.injEq] at hst₂
      subst hst₂
      exact ih (r := { r with phase }) hr₂ h₂ hn₂ hnext.symm hkeep hrun
    | false =>
      rw [List.filter_cons_of_neg (by rw [hcommand]; exact Bool.false_ne_true)] at hown
      by_cases hpid : e.pid = pid
      · -- part of its temporary file
        obtain ⟨version, args, phase⟩ := r
        cases e with
        | copy q k =>
          cases hpid
          unfold scriptStep at hst
          simp only [hr] at hst
          cases phase <;> simp only [ScriptRun.step, reduceCtorEq] at hst
          cases hst
          refine ih ?_ ?_ ?_ hown hkeep hrun
          · exact hr
          · exact h
          · exact hn
        | _ => exact (Bool.false_ne_true (hcommand.symm.trans (decide_eq_true hpid))).elim
      · obtain ⟨hruns, hstaged, hexecs⟩ := scriptStep_other hst hpid
        have h₁ : r.Brings unpack good n s₁ pid := h.mono (hstaged _) (hke hpid s₁ hst) hexecs
        exact ih (hruns.trans hr) h₁ (Nat.le_trans hn hexecs.length_le) hown hkeep hrun

end Brings

/-- A release is only ever replaced by another. -/
theorem keepsGood_released (hs : (scriptSystem home checks unpack files).ReachableWith
      (Delivers sums) s) {es : List ScriptEvent}
    (hes : (scriptSystem home checks unpack files).RunMeets (Delivers sums) s es) (pid : ℕ)
    (version : String) : (scriptSystem home checks unpack files).RunMeets
      (KeepsGood home checks unpack (Released checks unpack sums version) pid version) s es := by
  refine hes.mono hs fun s₁ e hs₁ _ _ s₂ hst hgood => ?_
  rcases (installs_inv hs₁).cached_step hst version with hsame | hnew
  · rw [hsame]
    exact hgood
  · exact hnew

/-- Where no other run publishes, what is at `$cached` stays there. -/
theorem keepsGood_of_publishes {es : List ScriptEvent}
    (hes : ∀ q ok, .publish q ok ∈ es → q = pid) (good : List UInt8 → Prop) (version : String) :
    (scriptSystem home checks unpack files).RunMeets
      (KeepsGood home checks unpack good pid version) s es := by
  refine System.runMeets_of_forall fun e he s₁ hne s₂ hst hgood => ?_
  rcases scriptStep_cached hst version with hsame | ⟨⟨q, ok, rfl⟩, -⟩
  · rw [hsame]
    exact hgood
  · exact absurd (hes q ok he) hne

end Released

/-- **Only releases run.**  Whatever runs of the script there are, interleaved command by command,
wherever any of them are killed, and whatever archives the network delivers: at `$cached` is what
was there before, or an executable file with the whole binary of an archive that passes the check
against the checksum published for that very version; every agent executed is that, of the version
its client asked for, or an executable file that was there before; a run that comes to its `exec`
succeeds with it, and an installed version stays installed.  A run that has checked its download
can go on to the `exec` of that archive's binary: it executes a release if its commands succeed,
whatever the others do in between, and that archive's binary unless another run publishes too. -/
theorem bootstrap_runs_genuine (home : String) (checks : List UInt8 → List UInt8 → Bool)
    (unpack : List UInt8 → Option (List UInt8)) (files : BinPath → Option BinFile)
    (sums : String → List UInt8) (s : Installs)
    (hs : (scriptSystem home checks unpack files).ReachableWith (Delivers sums) s) :
    (∀ version, s.files (.cached version) = files (.cached version) ∨
        ∃ binary, s.files (.cached version) = some ⟨binary, true⟩ ∧
          Released checks unpack sums version binary) ∧
      (∀ x ∈ s.execs, files (.cached x.version) = some ⟨x.binary, true⟩ ∨
        Released checks unpack sums x.version x.binary) ∧
      (∀ pid r, s.runs pid = some r → r.phase = .executing →
        ∃ binary s', (files (.cached r.version) = some ⟨binary, true⟩ ∨
            Released checks unpack sums r.version binary) ∧
          scriptStep home checks unpack s (.exec pid) = some s' ∧
          s'.execs = s.execs ++ [⟨r.version, r.args, binary⟩]) ∧
      (∀ es s', (scriptSystem home checks unpack files).RunMeets (Delivers sums) s es →
        (scriptSystem home checks unpack files).run s es = some s' →
          ∀ version, s.isInstalled version = true → s'.isInstalled version = true) ∧
      ∀ pid r archive binary, s.runs pid = some r → r.phase = .unpacking archive →
        unpack archive = some binary →
        let commands : List ScriptEvent := [.unpack pid, .prepare pid true, .stage pid true,
          .publish pid true, .clean pid true, .exec pid]
        Released checks unpack sums r.version binary ∧
          (∃ s', (scriptSystem home checks unpack files).run s commands = some s') ∧
          ∀ es s', (scriptSystem home checks unpack files).RunMeets (Delivers sums) s es →
            (scriptSystem home checks unpack files).run s es = some s' →
            es.filter (·.isCommand pid) = commands →
            (∃ b, Released checks unpack sums r.version b ∧
              ⟨r.version, r.args, b⟩ ∈ s'.execs.drop s.execs.length) ∧
            ((∀ q ok, .publish q ok ∈ es → q = pid) →
              ⟨r.version, r.args, binary⟩ ∈ s'.execs.drop s.execs.length) := by
  have hinv := installs_inv hs
  refine ⟨hinv.cached, hinv.execs, fun pid r hr hphase => ?_,
    fun es s' hmeets hrun version hv => ?_,
    fun pid r archive binary hr hphase hunpack => ?_⟩
  · have hok := hinv.runs pid r hr
    unfold ScriptRun.Ok at hok
    rw [hphase] at hok
    obtain ⟨binary, hget⟩ := Installs.isInstalled_iff.1 hok
    have hstep : scriptStep home checks unpack s (.exec pid) = some { s.goto pid r .agent with
        execs := s.execs ++ [⟨r.version, r.args, binary⟩] } := by
      have hpid : (ScriptEvent.exec pid).pid = pid := rfl
      simp only [scriptStep, hpid, hr, ScriptRun.step, hphase, hget, if_true]
    exact ⟨binary, _, hinv.origin hget, hstep, rfl⟩
  · induction es generalizing s with
    | nil =>
      cases hrun
      exact hv
    | cons e es ih =>
      rw [System.run_cons, Option.bind_eq_some_iff] at hrun
      obtain ⟨s₁, hst, hrun⟩ := hrun
      obtain ⟨he, hrest⟩ := hmeets
      rw [hst] at hrest
      have hs₁ := hs.step he hst
      exact ih s₁ hs₁ (installs_inv hs₁) hrest hrun (hinv.installed_step hst hv)
  · have hok := hinv.runs pid r hr
    unfold ScriptRun.Ok at hok
    rw [hphase] at hok
    have hreleased : Released checks unpack sums r.version binary := ⟨archive, hok, hunpack⟩
    have hbrings : ∀ good : List UInt8 → Prop, good binary →
        r.Brings unpack good s.execs.length s pid := by
      intro good hgood
      unfold ScriptRun.Brings
      rw [hphase]
      exact ⟨binary, hunpack, hgood⟩
    refine ⟨hreleased, ?_, fun es s' hmeets hrun hown => ⟨?_, fun hpublish => ?_⟩⟩
    · have hall : ∃ s', (scriptSystem home checks unpack files).run s (r.phase.toExec pid) =
          some s' := (hbrings _ hreleased).completes hr (Nat.le_refl _)
      rw [hphase] at hall
      exact hall
    · rw [show [_, _, _, _, _, _] = r.phase.toExec pid by rw [hphase]; rfl] at hown
      have hkeep := keepsGood_released hs hmeets pid r.version
      exact (hbrings _ hreleased).run hr (Nat.le_refl _) hown hkeep hrun
    · rw [show [_, _, _, _, _, _] = r.phase.toExec pid by rw [hphase]; rfl] at hown
      obtain ⟨b, rfl, hmem⟩ := (hbrings (· = binary) rfl).run hr (Nat.le_refl _) hown
        (keepsGood_of_publishes hpublish _ _) hrun
      exact hmem

/-- The archive of the release, and its checksum. -/
def releaseArchive : List UInt8 := [1, 2, 3]

/-- A host with the remains of an older installation, not executable. -/
def remains : BinPath → Option BinFile
  | .cached _ => some ⟨[9], false⟩
  | .staged _ _ => none

/-- Two runs of one version at one time; the network hands another archive to the first. -/
def racingInstalls : List ScriptEvent :=
  [.start 7 "0.1.0" ["__serve", "ls"], .start 8 "0.1.0" ["__serve", "ls"], .test 7, .test 8,
    .uname 7 "Linux-x86_64", .uname 8 "Linux-x86_64", .mktemp 7 true, .mktemp 8 true,
    .fetch 7 (some [6]), .fetch 8 (some releaseArchive), .fetch 7 (some releaseArchive),
    .fetch 8 (some releaseArchive), .check 8 true]

/-- The second one goes on, beside the first, which is refused, and a third, which it overtakes. -/
def overtakingInstall : List ScriptEvent :=
  [.unpack 8, .check 7 true, .prepare 8 true, .copy 8 2, .stage 8 true, .publish 8 true,
    .start 9 "0.1.0" ["__serve", "ls"], .test 9, .clean 8 true, .exec 8, .exec 9]

/-- The second one executes the release. -/
theorem bootstrap_runs_genuine_racing : ∃ s s' : Installs,
    (scriptSystem "/root" (fun c a => c = a) some remains).run ⟨remains, fun _ => none, []⟩
        racingInstalls = some s ∧
      (scriptSystem "/root" (fun c a => c = a) some remains).run s overtakingInstall = some s' ∧
      s'.runs 7 = some ⟨"0.1.0", ["__serve", "ls"],
        die "checksum mismatch for thther-v0.1.0-x86_64-unknown-linux-gnu.tar.gz"⟩ ∧
      ⟨"0.1.0", ["__serve", "ls"], releaseArchive⟩ ∈ s'.execs := by
  have hrun : (scriptSystem "/root" (fun c a => c = a) some remains).run
    ⟨remains, fun _ => none, []⟩ racingInstalls = some _ := rfl
  have hmeets : (scriptSystem "/root" (fun c a => c = a) some remains).RunMeets
      (Delivers fun _ => releaseArchive) ⟨remains, fun _ => none, []⟩ racingInstalls := by
    refine ⟨trivial, trivial, trivial, trivial, trivial, trivial, trivial, trivial, ?_, ?_,
      fun _ _ _ _ _ => rfl, fun _ _ _ _ _ => rfl, trivial, trivial⟩
    · intro r target archive hr hphase
      cases hr
      cases hphase
    · intro r target archive hr hphase
      cases hr
      cases hphase
  have hs := (System.ReachableWith.init rfl).run_meets hmeets hrun
  obtain ⟨-, -, -, -, hinstalls⟩ := bootstrap_runs_genuine "/root" (fun c a => c = a) some
    remains (fun _ => releaseArchive) _ hs
  obtain ⟨-, -, hexec⟩ := hinstalls 8 _ releaseArchive releaseArchive rfl rfl rfl
  have hmem := (hexec overtakingInstall _
    (System.runMeets_of_forall (by simp [overtakingInstall, Delivers])) rfl rfl).2
    (by simp [overtakingInstall])
  exact ⟨_, _, hrun, rfl, rfl, hmem⟩

end Thther
