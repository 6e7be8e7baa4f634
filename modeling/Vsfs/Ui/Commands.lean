import Vsfs.Client.Update
import Vsfs.Lib.Chunks
import Vsfs.Lib.UnorderedMap

/-!
# The commands that update indices

`vsfs index insert` and `vsfs index remove` take the records from the command line or from the
standard input, and there they send them in batches.

## Main results

* `run_stdin` : what is sent of the standard input, and the status that comes of it.
* `run_arguments` : the one update for the records on the command line.
-/

namespace Vsfs.Ui

open Program Client Chunks

/-- The calls to the client, each answered with its status. -/
inductive ClientCall : Type → Type where
  | init : ClientCall Status
  | update (requests : List IndexUpdateRequest) : ClientCall Status

abbrev Cli := Prog ClientCall Empty Empty

def ask (c : ClientCall Status) : Cli Status :=
  .call c fun
    | .ok status => .ret status
    | .error e => nomatch e

inductive IndexOp where
  | update
  | remove
  deriving DecidableEq, Repr

/-- `Map<path, vector<key>>` -/
abbrev IndexDataMap := UnorderedMap Str (List Str)

structure IndexUpdateCommand where
  op : IndexOp
  name : Str
  useStdin : Bool
  batchSize : BitVec 64
  indexData : IndexDataMap

/-- The tokens of a line, by `vobla::tokenize`. -/
class Tokenizer where
  tokenize : Str → List Str

namespace IndexUpdateCommand

variable [FsPath] [Tokenizer]

/-! ## Parameters -/

/-- The loop over the pairs of file and key. -/
def addPairs (layout : UnorderedMap.Layout Str (List Str)) (m : IndexDataMap) :
    List Str → IndexDataMap
  | file :: key :: rest =>
    addPairs layout (UnorderedMap.index layout m file fun keys => keys ++ [key]) rest
  | _ => m

/-- `parse_args` behind the options, which `getopt_long` has taken. -/
def parseArgs (layout : UnorderedMap.Layout Str (List Str)) (cmd : IndexUpdateCommand) :
    List Str → Int × IndexUpdateCommand
  | [] => (-1, cmd)
  | name :: pairs =>
    let cmd := { cmd with name }
    if 1 < (name :: pairs).length ∧ (name :: pairs).length % 2 = 0 then (-1, cmd)
    else (0, { cmd with indexData := addPairs layout cmd.indexData pairs })

/-! ## Records -/

/-- The file path and the key of a line. -/
def parseRecord (buf : Str) : Option (Str × Str) :=
  if buf.isEmpty then none
  else
    match Tokenizer.tokenize buf with
    | [path, key] => some (path, key)
    | _ => none

def requestOp (cmd : IndexUpdateCommand) : IndexUpdateRequest.Op :=
  match cmd.op with
  | .update => .insert
  | .remove => .remove

def request (cmd : IndexUpdateCommand) (cwd filePath key : Str) : IndexUpdateRequest where
  op := cmd.requestOp
  filePath := FsPath.absolute cwd filePath
  indexName := cmd.name
  key := key

/-- `std::getline`: a line, what is behind it, and whether the end was reached. -/
def getline (text : Str) : Str × Str × Bool :=
  match text.dropWhile (· ≠ '\n') with
  | [] => (text.takeWhile (· ≠ '\n'), [], true)
  | _ :: rest => (text.takeWhile (· ≠ '\n'), rest, false)

def wrongRecord : Status := ⟨-EINVAL, "Wrong index record format."⟩

/-- The variables of the loop, with `std::cin`. -/
structure Reading where
  cin : Str
  eof : Bool
  updates : List IndexUpdateRequest
  status : Status

/-- One turn of the loop over the lines; the command ends early with a status. -/
def readTurn (cmd : IndexUpdateCommand) (cwd : Str) (s : Reading) :
    Cli (Reading ⊕ (Status ⊕ Reading)) :=
  if s.eof then .ret (.inr (.inr s))
  else
    let (buf, cin, eof) := getline s.cin
    let s := { s with cin, eof }
    if buf.isEmpty then .ret (.inl s)
    else
      match parseRecord buf with
      | none => .ret (.inr (.inl wrongRecord))
      | some (filePath, key) => do
        let updates := s.updates ++ [cmd.request cwd filePath key]
        if cmd.batchSize.toNat ≤ updates.length then
          let status ← ask (.update updates)
          if !status.ok then return .inr (.inl status)
          return .inl { s with updates := [], status }
        else return .inl { s with updates }

/-- Behind the loop: what was collected since the last batch. -/
def sendRest : Status ⊕ Reading → Cli Status
  | .inl status => .ret status
  | .inr s => if s.updates.isEmpty then .ret s.status else ask (.update s.updates)

def run (cmd : IndexUpdateCommand) (cwd stdin : Str) : Cli Status := do
  let status ← ask .init
  if !status.ok then return status
  if cmd.useStdin then
    let outcome ← Prog.loop (cmd.readTurn cwd) ⟨stdin, false, [], status⟩
    sendRest outcome
  else
    let updates := cmd.indexData.entries.flatMap fun ⟨path, keys⟩ =>
      keys.map fun key => cmd.request cwd path key
    ask (.update updates)

/-! ## What is sent -/

/-- The calls so far: the status of `init`, and each batch with its status. -/
structure Session where
  connected : Option Status
  sent : List (List IndexUpdateRequest × Status)

/-- The client may answer with any status. -/
def answers : Exec ClientCall Empty Session := fun _ c s b s' =>
  match c, b with
  | .init, .ok status => s' = { s with connected := some status }
  | .update requests, .ok status => s' = { s with sent := s.sent ++ [(requests, status)] }
  | _, .error _ => False

/-- The lines of a text that are not empty. -/
def linesOf (text : Str) : List Str := (text.splitOn '\n').filter fun line => !line.isEmpty

def isRecord (line : Str) : Bool := (parseRecord line).isSome

/-- The requests of the lines before the first one that is not a record. -/
def requestsOf (cmd : IndexUpdateCommand) (cwd : Str) (lines : List Str) :
    List IndexUpdateRequest :=
  (lines.takeWhile isRecord).filterMap fun line =>
    (parseRecord line).map fun (filePath, key) => cmd.request cwd filePath key

/-- The batches to be sent: full ones, and what is left at the end of the input. -/
def plan (cmd : IndexUpdateCommand) (cwd : Str) (lines : List Str) :
    List (List IndexUpdateRequest) :=
  let (full, rest) := chunks cmd.batchSize.toNat (cmd.requestsOf cwd lines)
  if lines.all isRecord && !rest.isEmpty then full ++ [rest] else full

/-- The plan leaves a line out only where the input has one that is no record. -/
theorem plan_chunked (cmd : IndexUpdateCommand) (cwd : Str) (lines : List Str) :
    Chunked cmd.batchSize.toNat (cmd.requestsOf cwd lines) (lines.all isRecord)
      (cmd.plan cwd lines) := by
  unfold plan
  dsimp only
  split
  · next last =>
    rw [Bool.and_eq_true, Bool.not_eq_true', List.isEmpty_eq_false_iff] at last
    exact chunked_rest _ last.2 _
  · next none =>
    refine chunked_full _ fun whole => ?_
    rw [whole, Bool.true_and, Bool.not_eq_true, Bool.not_eq_false', List.isEmpty_iff] at none
    exact none

/-- How a run comes out that should send `plan`: the last batch was refused, or all of them
were sent and the status tells whether every line was a record. -/
inductive Outcome (plan : List (List IndexUpdateRequest)) (records : Bool) (status : Status)
    (sent : List (List IndexUpdateRequest × Status)) : Prop where
  | refused {front : List (List IndexUpdateRequest × Status)} {batch : List IndexUpdateRequest}
      (last : sent = front ++ [(batch, status)]) (before : ∀ x ∈ front, x.2.ok = true)
      (failed : status.ok = false) (planned : sent.map Prod.fst <+: plan)
  | finished (all : sent.map Prod.fst = plan) (before : ∀ x ∈ sent, x.2.ok = true)
      (status_eq : if records then status.ok = true else status = wrongRecord)

omit [FsPath] [Tokenizer] in
theorem getline_last {text line : Str} (lines : text.splitOn '\n' = [line]) :
    getline text = (line, [], true) := by
  have absent : '\n' ∉ text := by
    intro mem
    obtain ⟨before, after, rfl⟩ := List.append_of_mem mem
    have lengths := congrArg List.length lines
    rw [List.splitOn_append_cons_self, List.length_append] at lengths
    have some := List.length_pos_iff.mpr (List.splitOn_ne_nil '\n' before)
    have some' := List.length_pos_iff.mpr (List.splitOn_ne_nil '\n' after)
    rw [List.length_singleton] at lengths
    omega
  rw [List.splitOn_eq_singleton absent] at lines
  obtain rfl : text = line := by simpa using lines
  have all : ∀ c ∈ text, decide (c ≠ '\n') = true := by
    intro c mem
    simpa using fun same : c = '\n' => absent (same ▸ mem)
  rw [getline, List.dropWhile_eq_nil_iff.mpr all, List.takeWhile_eq_self_iff.mpr all]

omit [FsPath] [Tokenizer] in
theorem getline_more {text line next : Str} {lines : List Str}
    (cut : text.splitOn '\n' = line :: next :: lines) :
    ∃ rest, getline text = (line, rest, false) ∧ rest.splitOn '\n' = next :: lines := by
  have mem : '\n' ∈ text := by
    by_contra absent
    rw [List.splitOn_eq_singleton absent] at cut
    simp at cut
  obtain ⟨before, after, rfl, absent⟩ := List.eq_append_cons_of_mem mem
  rw [List.splitOn_append_cons_self_of_not_mem absent] at cut
  obtain ⟨rfl, rest⟩ := List.cons.inj cut
  refine ⟨after, ?_, rest⟩
  have all : ∀ c ∈ before, decide (c ≠ '\n') = true := by
    intro c mem
    simpa using fun same : c = '\n' => absent (same ▸ mem)
  have dropped : (before ++ '\n' :: after).dropWhile (fun c => decide (c ≠ '\n')) =
      '\n' :: after := by
    rw [List.dropWhile_append_of_pos all]
    simp
  have taken : (before ++ '\n' :: after).takeWhile (fun c => decide (c ≠ '\n')) = before := by
    rw [List.takeWhile_append_of_pos all]
    simp
  rw [getline, dropped, taken]

/-! ## Runs -/

section Runs

variable {cmd : IndexUpdateCommand} {cwd : Str} {session : Session}
  {post : Except Empty Status → Session → Prop}

omit [FsPath] [Tokenizer] in
theorem ends_update {requests : List IndexUpdateRequest} {f : Status → Cli Status}
    (rest : ∀ status, Ends answers post (f status)
      { session with sent := session.sent ++ [(requests, status)] }) :
    Ends answers post ((ask (.update requests)).bind f) session := by
  refine .call fun b s' answered => ?_
  cases b with
  | ok status =>
    obtain rfl : s' = _ := answered
    exact rest status
  | error e => cases e

omit [FsPath] [Tokenizer] in
theorem ends_init {f : Status → Cli Status}
    (rest : ∀ status, Ends answers post (f status) { session with connected := some status }) :
    Ends answers post ((ask .init).bind f) session := by
  refine .call fun b s' answered => ?_
  cases b with
  | ok status =>
    obtain rfl : s' = _ := answered
    exact rest status
  | error e => cases e

theorem requestsOf_concat {prior : List Str} (records : prior.all isRecord = true) {line : Str}
    {filePath key : Str} (record : parseRecord line = some (filePath, key)) :
    cmd.requestsOf cwd (prior ++ [line]) =
      cmd.requestsOf cwd prior ++ [cmd.request cwd filePath key] := by
  have all : ∀ l ∈ prior, isRecord l = true := List.all_eq_true.mp records
  have here : isRecord line = true := by rw [isRecord, record]; rfl
  rw [requestsOf, requestsOf, List.takeWhile_append_of_pos all,
    List.takeWhile_eq_self_iff.mpr all, List.takeWhile_cons_of_pos here, List.filterMap_append]
  simp [record]

theorem requestsOf_wrong {prior rest : List Str} (records : prior.all isRecord = true) {line : Str}
    (wrong : parseRecord line = none) :
    cmd.requestsOf cwd (prior ++ line :: rest) = cmd.requestsOf cwd prior := by
  have all : ∀ l ∈ prior, isRecord l = true := List.all_eq_true.mp records
  have here : ¬ isRecord line = true := by rw [isRecord, wrong]; simp
  rw [requestsOf, requestsOf, List.takeWhile_append_of_pos all,
    List.takeWhile_eq_self_iff.mpr all, List.takeWhile_cons_of_neg here, List.append_nil]

/-- The full batches of the first lines are the first ones of the plan. -/
theorem chunks_plan {prior : List Str} (rest : List Str) (records : prior.all isRecord = true) :
    (chunks cmd.batchSize.toNat (cmd.requestsOf cwd prior)).1 <+: cmd.plan cwd (prior ++ rest) := by
  have all : ∀ l ∈ prior, isRecord l = true := List.all_eq_true.mp records
  have longer : cmd.requestsOf cwd (prior ++ rest) =
      cmd.requestsOf cwd prior ++ cmd.requestsOf cwd rest := by
    rw [requestsOf, requestsOf, requestsOf, List.takeWhile_append_of_pos all,
      List.takeWhile_eq_self_iff.mpr all, List.filterMap_append]
  have first := chunks_prefix cmd.batchSize.toNat (cmd.requestsOf cwd prior)
    (cmd.requestsOf cwd rest)
  rw [← longer] at first
  unfold plan
  dsimp only
  split
  · exact first.trans (List.prefix_append _ _)
  · exact first

/-- What holds before every turn: the lines `prior` were read, and all were records. -/
structure Collected (cmd : IndexUpdateCommand) (cwd : Str) (prior : List Str) (s : Reading)
    (session : Session) : Prop where
  records : prior.all isRecord = true
  cut : chunks cmd.batchSize.toNat (cmd.requestsOf cwd prior) =
    (session.sent.map Prod.fst, s.updates)
  before : ∀ x ∈ session.sent, x.2.ok = true
  status : s.status.ok = true

/-- What the command comes to, after the connection was made. -/
def Comes (cmd : IndexUpdateCommand) (cwd : Str) (lines : List Str) (connected : Option Status)
    (r : Except Empty Status) (s : Session) : Prop :=
  ∃ status, r = .ok status ∧ s.connected = connected ∧
    Outcome (cmd.plan cwd lines) (lines.all isRecord) status s.sent

variable {prior : List Str} {s : Reading}

theorem Collected.sendRest (collected : Collected cmd cwd prior s session) :
    Ends answers (Comes cmd cwd prior session.connected) (sendRest (.inr s)) session := by
  have whole : cmd.plan cwd prior = if s.updates.isEmpty then session.sent.map Prod.fst
      else session.sent.map Prod.fst ++ [s.updates] := by
    rw [plan, collected.cut]
    cases s.updates <;> simp [collected.records]
  change Ends answers _ (if s.updates.isEmpty then .ret s.status else ask (.update s.updates))
    session
  split
  · next empty =>
    rw [if_pos empty] at whole
    refine .ret ⟨s.status, rfl, rfl, .finished whole.symm collected.before ?_⟩
    rw [if_pos collected.records, collected.status]
  · next some =>
    rw [if_neg some] at whole
    have all (status : Status) :
        (session.sent ++ [(s.updates, status)]).map Prod.fst = cmd.plan cwd prior := by
      rw [whole]
      simp
    rw [← Prog.bind_ret (ask _)]
    refine ends_update fun status => .ret ⟨status, rfl, rfl, ?_⟩
    cases ok : status.ok with
    | false => exact .refused rfl collected.before ok (all status ▸ List.prefix_rfl)
    | true =>
      refine .finished (all status) (fun x mem => ?_) (by rw [if_pos collected.records, ok])
      rcases List.mem_append.mp mem with old | new
      · exact collected.before x old
      · rw [List.mem_singleton.mp new, ok]

/-- One line is read, and nothing else happens but that a full batch is sent. -/
theorem Collected.turn (collected : Collected cmd cwd prior s session) (more : s.eof = false)
    {line cin : Str} {eof : Bool} (got : getline s.cin = (line, cin, eof)) (rest : List Str)
    (next : ∀ s' session', s'.cin = cin → s'.eof = eof →
      session'.connected = session.connected →
      Collected cmd cwd (prior ++ [line].filter fun line => !line.isEmpty) s' session' →
      Ends answers (Comes cmd cwd ((prior ++ [line].filter fun line => !line.isEmpty) ++ rest)
        session.connected) (.iter (cmd.readTurn cwd) s' IndexUpdateCommand.sendRest) session') :
    Ends answers (Comes cmd cwd ((prior ++ [line].filter fun line => !line.isEmpty) ++ rest)
      session.connected) (.iter (cmd.readTurn cwd) s IndexUpdateCommand.sendRest) session := by
  refine .iter ?_
  rw [readTurn, if_neg (by simp [more]), got]
  dsimp only
  cases empty : line.isEmpty with
  | true =>
    have none : [line].filter (fun line => !line.isEmpty) = [] := by simp [empty]
    rw [none, List.append_nil] at next ⊢
    exact next _ session rfl rfl rfl ⟨collected.records, collected.cut, collected.before,
      collected.status⟩
  | false =>
    have one : [line].filter (fun line => !line.isEmpty) = [line] := by simp [empty]
    rw [one] at next ⊢
    rw [if_neg (by simp)]
    cases record : parseRecord line with
    | none =>
      -- The batch that is not yet full is not sent any more.
      have wrong : ((prior ++ [line]) ++ rest).all isRecord = false := by
        simp [isRecord, record]
      refine .ret ⟨wrongRecord, rfl, rfl, .finished ?_ collected.before (by rw [wrong]; rfl)⟩
      rw [plan, List.append_assoc, List.singleton_append,
        requestsOf_wrong collected.records record, collected.cut]
      rw [List.append_assoc, List.singleton_append] at wrong
      simp [wrong]
    | some fields =>
      obtain ⟨filePath, key⟩ := fields
      have records : (prior ++ [line]).all isRecord = true := by
        simp [collected.records, isRecord, record]
      have cut := chunks_concat cmd.batchSize.toNat (cmd.requestsOf cwd prior)
        (cmd.request cwd filePath key)
      rw [← requestsOf_concat collected.records record, collected.cut, add] at cut
      dsimp only at cut ⊢
      by_cases full : cmd.batchSize.toNat ≤ (s.updates ++ [cmd.request cwd filePath key]).length
      · rw [if_pos full] at cut ⊢
        rw [Prog.bind_eq, Prog.bind_assoc]
        refine ends_update fun status => ?_
        cases ok : status.ok with
        | false =>
          refine .ret ⟨status, rfl, rfl, .refused rfl collected.before ok ?_⟩
          have sent : (chunks cmd.batchSize.toNat (cmd.requestsOf cwd (prior ++ [line]))).1 <+:
              cmd.plan cwd (prior ++ [line] ++ rest) :=
            chunks_plan rest records
          rw [cut] at sent
          simpa using sent
        | true =>
          refine next _ _ rfl rfl rfl ⟨records, ?_, fun x mem => ?_, ok⟩
          · rw [cut]
            simp
          · rcases List.mem_append.mp mem with old | new
            · exact collected.before x old
            · rw [List.mem_singleton.mp new, ok]
      · rw [if_neg full] at cut ⊢
        exact next _ session rfl rfl rfl ⟨records, cut, collected.before, collected.status⟩

/-- The turns that read the lines `line :: later`, and what is sent behind the loop. -/
theorem Collected.loop {line : Str} {later : List Str}
    (collected : Collected cmd cwd prior s session) (more : s.eof = false)
    (lines : s.cin.splitOn '\n' = line :: later) :
    Ends answers (Comes cmd cwd (prior ++ (line :: later).filter fun line => !line.isEmpty)
      session.connected) (.iter (cmd.readTurn cwd) s IndexUpdateCommand.sendRest) session := by
  induction later generalizing line prior s session with
  | nil =>
    have last := collected.turn more (getline_last lines) []
    rw [List.append_nil] at last
    refine last fun s' session' _ eof connected collected' => .iter ?_
    rw [readTurn, if_pos eof, ← connected]
    exact collected'.sendRest
  | cons next later ih =>
    obtain ⟨rest, got, cut⟩ := getline_more lines
    have first := collected.turn more got ((next :: later).filter fun line => !line.isEmpty)
    rw [List.append_assoc, ← List.filter_append, List.singleton_append] at first
    refine first fun s' session' cin eof connected collected' => ?_
    have later := ih collected' eof (cin ▸ cut)
    rw [connected, List.append_assoc, ← List.filter_append, List.singleton_append] at later
    exact later

/-- With `--stdin`, whatever the client answers: the command ends. Nothing is sent without a
connection; else the requests of the lines before the first wrong one are sent in order and in
full batches, up to a batch that is refused, whose status is returned. Only before a wrong line
there may be requests, fewer than a batch, that are not sent. -/
theorem run_stdin (cmd : IndexUpdateCommand) (cwd stdin : Str) (useStdin : cmd.useStdin = true) :
    Ends answers (fun r s => ∃ connected, s.connected = some connected ∧
      if connected.ok then
        ∃ status batches, r = .ok status ∧
          Chunked cmd.batchSize.toNat (cmd.requestsOf cwd (linesOf stdin))
            ((linesOf stdin).all isRecord) batches ∧
          Outcome batches ((linesOf stdin).all isRecord) status s.sent
      else r = .ok connected ∧ s.sent = []) (cmd.run cwd stdin) ⟨none, []⟩ := by
  rw [run, Prog.bind_eq]
  refine ends_init fun connected => ?_
  cases ok : connected.ok with
  | false =>
    exact .ret ⟨connected, rfl, by rw [if_neg (by simp [ok])]; exact ⟨rfl, rfl⟩⟩
  | true =>
    rw [if_neg (by simp), if_pos useStdin]
    obtain ⟨line, later, lines⟩ := List.exists_cons_of_ne_nil (List.splitOn_ne_nil '\n' stdin)
    have start : Collected cmd cwd [] ⟨stdin, false, [], connected⟩ ⟨some connected, []⟩ :=
      ⟨rfl, rfl, by simp, ok⟩
    refine (start.loop rfl lines).imp fun r s comes => ?_
    obtain ⟨status, returned, same, outcome⟩ := comes
    refine ⟨connected, same, ?_⟩
    rw [if_pos ok]
    rw [List.nil_append, ← lines] at outcome
    exact ⟨status, _, returned, plan_chunked cmd cwd _, outcome⟩

/-! ## Records from the command line -/

/-- The keys that come with a file, in the order of the parameters. -/
def keysOf (file : Str) : List Str → List Str
  | file' :: key :: rest => if file = file' then key :: keysOf file rest else keysOf file rest
  | _ => []

omit [FsPath] [Tokenizer] in
/-- Every file has its keys, whatever the layout of the map. -/
theorem lookup_addPairs (layout : UnorderedMap.Layout Str (List Str)) (m : IndexDataMap)
    (pairs : List Str) (file : Str) : ((addPairs layout m pairs).lookup file).getD [] =
      (m.lookup file).getD [] ++ keysOf file pairs := by
  fun_induction addPairs layout m pairs with
  | case1 m file' key rest ih =>
    rw [ih, UnorderedMap.lookup_index, keysOf]
    by_cases same : file = file'
    · subst same
      simp
      rfl
    · rw [if_neg same, if_neg same]
  | case2 pairs m short =>
    have none : keysOf file pairs = [] := by
      unfold keysOf
      split
      · exact (short _ _ _ rfl).elim
      · rfl
    rw [none, List.append_nil]

/-- Without `--stdin` there is one update, also where it is empty. It has the keys of every file
on the command line, and its status is returned. -/
theorem run_arguments (layout : UnorderedMap.Layout Str (List Str)) (cmd : IndexUpdateCommand)
    (fresh : cmd.indexData = ∅) (noStdin : cmd.useStdin = false) (name cwd stdin : Str)
    (pairs : List Str) (accepted : (cmd.parseArgs layout (name :: pairs)).1 = 0) :
    Ends answers (fun r s => ∃ connected, s.connected = some connected ∧
      if connected.ok then
        ∃ status, ∃ data : IndexDataMap, r = .ok status ∧
          (∀ file, (data.lookup file).getD [] = keysOf file pairs) ∧
          s.sent = [(data.entries.flatMap fun e => e.2.map fun key =>
            ⟨cmd.requestOp, FsPath.absolute cwd e.1, name, key⟩, status)]
      else r = .ok connected ∧ s.sent = [])
      ((cmd.parseArgs layout (name :: pairs)).2.run cwd stdin) ⟨none, []⟩ := by
  rw [parseArgs] at accepted ⊢
  dsimp only at accepted ⊢
  split at accepted
  · cases accepted
  · next even =>
    rw [if_neg even, run, Prog.bind_eq]
    refine ends_init fun connected => ?_
    cases ok : connected.ok with
    | false =>
      exact .ret ⟨connected, rfl, by rw [if_neg (by simp [ok])]; exact ⟨rfl, rfl⟩⟩
    | true =>
      rw [if_neg (by simp), if_neg (by simp [noStdin]), ← Prog.bind_ret (ask _)]
      refine ends_update fun status => .ret ⟨connected, rfl, ?_⟩
      rw [if_pos ok]
      refine ⟨status, addPairs layout cmd.indexData pairs, rfl, fun file => ?_, rfl⟩
      rw [lookup_addPairs, fresh]
      rfl

end Runs

end IndexUpdateCommand

/-! ## Three lines with batches of two -/

namespace IndexUpdateCommand

/-- Tokens between blanks. -/
@[reducible] def blanks : Tokenizer :=
  ⟨fun line => (line.splitOn ' ').filter fun token => !token.isEmpty⟩

attribute [local instance] Posix.fsPath blanks

def insertEnergy : IndexUpdateCommand := ⟨.update, "energy".toList, true, 2, ∅⟩

def threeLines : Str := "/a 1\n\n/b 2\nc\n".toList

theorem threeLines_run : Ends answers (fun r s => ∃ connected, s.connected = some connected ∧
    if connected.ok then
      ∃ status batches, r = .ok status ∧
        Chunked 2 (insertEnergy.requestsOf "/".toList (linesOf threeLines))
          ((linesOf threeLines).all isRecord) batches ∧
        Outcome batches ((linesOf threeLines).all isRecord) status s.sent
    else r = .ok connected ∧ s.sent = [])
    (insertEnergy.run "/".toList threeLines) ⟨none, []⟩ :=
  run_stdin insertEnergy "/".toList threeLines rfl

end IndexUpdateCommand

end Vsfs.Ui
