import VgiSymbols.State.Negative
import VgiSymbols.Worker.Scalars
import VgiSymbols.Worker.Tables

set_option autoImplicit false

/-! # Sessions of the worker

A session interleaves the scalar functions on batches, the opening of table scans and the requests
for their next batch, all on the one shared state.

* `session_refines`: the state of a session is that of a run of the operations it performs.
* `emitted_once`: an open scan emits its batch once, as it was when the scan was opened, whatever
  is called in between.
-/

namespace VgiSymbols

open Unwind Sweep

namespace Worker

/-- The shared state, and the producers of the open scans by a handle. -/
structure Session where
  state : SymbolsState
  scans : Table Nat Producer

/-- A call of the worker. -/
inductive Call (vgi : VgiTables) where
  | symbolicate (c : Chunk)
  | inlineFrames (c : Chunk)
  | functionName (c : Chunk)
  | openScan (handle : Nat) (f : TableFunction) (args : vgi.Arguments) (w : World)
  | nextBatch (handle : Nat)

section

variable (vgi : VgiTables) (arrow : Arrow) (rd : Readers)

/-- The session after a call. -/
def step (t : Session) : Call vgi → Session
  | .symbolicate c => { t with state := (Symbolicate.process arrow rd c.w c.batch t.state).2 }
  | .inlineFrames c => { t with state := (InlineFrames.process arrow rd c.w c.batch t.state).2 }
  | .functionName c => { t with state := (FunctionName.process rd c.w c.batch t.state).2 }
  | .openScan handle f args w =>
      match f.producer vgi rd w.fs t.state args with
      | (.ok producer, s) => { state := s, scans := t.scans.insert handle producer }
      | (.error _, s) => { t with state := s }
  | .nextBatch handle =>
      match t.scans.lookup handle with
      | some producer => { t with scans := t.scans.insert handle producer.nextBatch.2 }
      | none => t

end

/-- The batch a scan emits when it is asked for the next one. -/
def Session.fetch (t : Session) (handle : Nat) : Option TableBatch :=
  (t.scans.lookup handle).bind fun producer => producer.nextBatch.1

/-! ## The operations of a session -/

section Refines

variable {vgi : VgiTables} {arrow : Arrow} {rd : Readers}

open SymbolsState (Op resolveRow nameRow runOps)

/-- The operations a call performs on the state: one for each row that it comes to and that has no
null, the one of a function that changes the state, and none for a batch that is fetched. -/
def Call.ops (rd : Readers) (s : SymbolsState) : Call vgi → List (World × Op)
  | .symbolicate c | .inlineFrames c =>
      (reachedRows (resolveRow rd) c.rows s).filterMap fun row =>
        row.2.map fun (b, a) => (row.1, .resolve b a)
  | .functionName c =>
      (reachedRows (nameRow rd) c.rows s).filterMap fun row =>
        row.2.map fun (b, a) => (row.1, .functionName b a)
  | .openScan _ f args w => ((f.op vgi args).map fun op => (w, op)).toList
  | .nextBatch _ => []

/-- The rows with a null do nothing to the state. -/
theorem run_rows {f : SymbolsState → Row → SymbolsState} {op : Row → Option (World × Op)}
    (hsome : ∀ s row i, op row = some i → f s row = SymbolsState.step rd s i)
    (hnone : ∀ s row, op row = none → f s row = s) (rows : List Row) (s : SymbolsState) :
    Run.run f s rows = runOps rd s (rows.filterMap op) := by
  induction rows generalizing s with
  | nil => rfl
  | cons row rows ih =>
      rw [Run.run_cons, ih]
      cases hop : op row with
      | none => rw [List.filterMap_cons_none hop, hnone s row hop]
      | some i => rw [List.filterMap_cons_some hop, hsome s row i hop, runOps, runOps, Run.run_cons]

theorem run_resolveRows (rows : List Row) (s : SymbolsState) :
    (sweep (resolveRow rd) rows s).2 =
      runOps rd s ((reachedRows (resolveRow rd) rows s).filterMap fun row =>
        row.2.map fun (b, a) => (row.1, .resolve b a)) := by
  rw [sweep_snd]
  refine run_rows (fun s row i hi => ?_) (fun s row hrow => ?_) _ s
  · obtain ⟨⟨b, a⟩, hrow, rfl⟩ := Option.map_eq_some_iff.mp hi
    rw [resolveRow, hrow]
    rfl
  · rw [resolveRow, Option.map_eq_none_iff.mp hrow]

theorem run_nameRows (rows : List Row) (s : SymbolsState) :
    (sweep (nameRow rd) rows s).2 =
      runOps rd s ((reachedRows (nameRow rd) rows s).filterMap fun row =>
        row.2.map fun (b, a) => (row.1, .functionName b a)) := by
  rw [sweep_snd]
  refine run_rows (fun s row i hi => ?_) (fun s row hrow => ?_) _ s
  · obtain ⟨⟨b, a⟩, hrow, rfl⟩ := Option.map_eq_some_iff.mp hi
    rw [nameRow, hrow]
    rfl
  · rw [nameRow, Option.map_eq_none_iff.mp hrow]

/-- Opening a scan performs its operation, if it has one. -/
theorem producer_snd (f : TableFunction) (s : SymbolsState) (args : vgi.Arguments) (w : World) :
    (f.producer vgi rd w.fs s args).2
      = runOps rd s ((f.op vgi args).map fun op => (w, op)).toList := by
  cases f with
  | moduleInfoBlob | moduleInfoPath | cacheStatus | cacheEvict | listSources => rfl
  | addSource =>
      show (AddSource.producer vgi.toVgi s args).2 = _
      rw [AddSource.producer, TableFunction.op]
      cases vgi.constStr args 0 <;> rfl
  | dropSource =>
      show (DropSource.producer vgi s args).2 = _
      rw [DropSource.producer, TableFunction.op]
      cases vgi.constStr args 0 <;> rfl

/-- The step lemma: the state after a call. -/
theorem state_step (t : Session) (call : Call vgi) :
    (step vgi arrow rd t call).state = runOps rd t.state (call.ops rd t.state) := by
  cases call with
  | symbolicate c =>
      show (Symbolicate.process arrow rd c.w c.batch t.state).2 = _
      rw [Symbolicate.process_eq]
      exact run_resolveRows c.rows t.state
  | inlineFrames c =>
      show (InlineFrames.process arrow rd c.w c.batch t.state).2 = _
      rw [InlineFrames.process_eq]
      exact run_resolveRows c.rows t.state
  | functionName c =>
      show (FunctionName.process rd c.w c.batch t.state).2 = _
      rw [FunctionName.process_eq]
      exact run_nameRows c.rows t.state
  | openScan handle f args w =>
      rw [Call.ops, ← producer_snd, step]
      rcases f.producer vgi rd w.fs t.state args with ⟨_ | _, s⟩ <;> rfl
  | nextBatch handle =>
      rw [step]
      cases t.scans.lookup handle <;> rfl

theorem isSession_ops (rd : Readers) (s : SymbolsState) (call : Call vgi) :
    ∀ i ∈ call.ops rd s, i.2.isSession = true := by
  intro i hi
  cases call with
  | symbolicate c | inlineFrames c | functionName c =>
      obtain ⟨row, -, hrow⟩ := List.mem_filterMap.mp hi
      obtain ⟨x, -, rfl⟩ := Option.map_eq_some_iff.mp hrow
      rfl
  | openScan handle f args w =>
      obtain ⟨op, hop, rfl⟩ := Option.map_eq_some_iff.mp (Option.mem_toList.mp hi)
      cases f with
      | moduleInfoBlob | moduleInfoPath | cacheStatus | listSources => cases hop
      | cacheEvict =>
          cases hop
          rfl
      | addSource | dropSource =>
          obtain ⟨x, -, rfl⟩ := Option.map_eq_some_iff.mp hop
          rfl
  | nextBatch handle => cases hi

/-- The operations of a session. -/
def performed (vgi : VgiTables) (arrow : Arrow) (rd : Readers) (t : Session)
    (calls : List (Call vgi)) : List (World × Op) :=
  Run.expand (step vgi arrow rd) (fun t call => call.ops rd t.state) t calls

/-- **The worker refines the state machine.** Whatever is called in a session, also when rows
unwind in the middle of a batch, its state is that of a run of operations; none of them imports a
manifest. -/
theorem session_refines (vgi : VgiTables) (arrow : Arrow) (rd : Readers) (t : Session)
    (calls : List (Call vgi)) :
    (Run.run (step vgi arrow rd) t calls).state
        = runOps rd t.state (performed vgi arrow rd t calls) ∧
      ∀ i ∈ performed vgi arrow rd t calls, i.2.isSession = true := by
  unfold performed
  constructor
  · exact Run.run_expand state_step t calls
  · exact Run.forall_mem_expand (fun t call => isSession_ops rd t.state call) t calls

end Refines

/-! ## Open scans -/

section Scans

variable {vgi : VgiTables} {arrow : Arrow} {rd : Readers}

/-- The call asks the scan for its next batch. -/
def Call.fetches (handle : Nat) : Call vgi → Bool
  | .nextBatch h => h == handle
  | _ => false

/-- The call opens a scan under the handle. -/
def Call.opens (handle : Nat) : Call vgi → Bool
  | .openScan h _ _ _ => h == handle
  | _ => false

/-- What the scan emits along a session: an answer for each time it is asked. -/
def answers (vgi : VgiTables) (arrow : Arrow) (rd : Readers) (handle : Nat) (t : Session)
    (calls : List (Call vgi)) : List (Option TableBatch) :=
  Run.emitted (step vgi arrow rd)
    (fun t call => if call.fetches handle then some (t.fetch handle) else none) t calls

/-- A producer that was asked once has nothing more to give. -/
theorem Producer.spent (p : Producer) :
    p.nextBatch.2.nextBatch.1 = none ∧ p.nextBatch.2.nextBatch.2 = p.nextBatch.2 := by
  cases p <;> exact ⟨rfl, rfl⟩

/-- A producer that a function just made has its batch to give. -/
theorem TableFunction.exists_batch {f : TableFunction} {s s' : SymbolsState}
    {args : vgi.Arguments} {fs : FileSystem} {p : Producer}
    (h : f.producer vgi rd fs s args = (.ok p, s')) : ∃ batch, p.nextBatch.1 = some batch := by
  cases f with
  | cacheStatus | cacheEvict | listSources =>
      cases h
      exact ⟨_, rfl⟩
  | moduleInfoBlob =>
      obtain ⟨h, -⟩ := Prod.mk.inj h
      rw [ModuleInfoBlob.producer] at h
      split at h
      · cases h
      · cases h
        exact ⟨_, rfl⟩
  | moduleInfoPath =>
      obtain ⟨h, -⟩ := Prod.mk.inj h
      rw [ModuleInfoPath.producer] at h
      split at h
      · cases h
      · cases h
        exact ⟨_, rfl⟩
  | addSource =>
      have hadded : Except.map (fun sourceId => Producer.oneString (some sourceId))
          (AddSource.producer vgi.toVgi s args).1 = .ok p := congrArg Prod.fst h
      cases hadd : (AddSource.producer vgi.toVgi s args).1 with
      | error e =>
          rw [hadd] at hadded
          cases hadded
      | ok sourceId =>
          rw [hadd] at hadded
          cases hadded
          exact ⟨_, rfl⟩
  | dropSource =>
      change DropSource.producer vgi s args = (.ok p, s') at h
      rw [DropSource.producer] at h
      split at h
      · cases h
      · cases h
        exact ⟨_, rfl⟩

/-- Calls leave the producer of a scan alone, unless they ask it or open the handle anew. -/
theorem lookup_step (arrow : Arrow) (rd : Readers) (t : Session) {handle : Nat} {call : Call vgi}
    (hopens : call.opens handle = false) (hfetches : call.fetches handle = false) :
    (step vgi arrow rd t call).scans.lookup handle = t.scans.lookup handle := by
  cases call with
  | symbolicate c | inlineFrames c | functionName c => rfl
  | openScan h f args w =>
      have hne : handle ≠ h := fun heq => by simp [Call.opens, heq] at hopens
      rw [step]
      rcases f.producer vgi rd w.fs t.state args with ⟨_ | _, s⟩
      · rfl
      · exact AList.lookup_insert_ne hne
  | nextBatch h =>
      have hne : handle ≠ h := fun heq => by simp [Call.fetches, heq] at hfetches
      rw [step]
      cases t.scans.lookup h with
      | none => rfl
      | some p => exact AList.lookup_insert_ne hne

/-- The call that asks the scan. -/
theorem lookup_step_fetch (arrow : Arrow) (rd : Readers) {handle : Nat} {t : Session}
    {call : Call vgi} {p : Producer}
    (hfetches : call.fetches handle = true) (hp : t.scans.lookup handle = some p) :
    t.fetch handle = p.nextBatch.1 ∧
      (step vgi arrow rd t call).scans.lookup handle = some p.nextBatch.2 := by
  cases call with
  | symbolicate c | inlineFrames c | functionName c => cases hfetches
  | openScan h f args w => cases hfetches
  | nextBatch h =>
      obtain rfl : h = handle := of_decide_eq_true hfetches
      rw [Session.fetch, step, hp]
      exact ⟨rfl, AList.lookup_insert _⟩

/-- From a scan whose batch was taken nothing more comes. -/
theorem answers_spent {handle : Nat} {t : Session} {p : Producer}
    (hp : t.scans.lookup handle = some p.nextBatch.2) {calls : List (Call vgi)}
    (hcalls : ∀ call ∈ calls, call.opens handle = false) :
    answers vgi arrow rd handle t calls
      = List.replicate (calls.countP (Call.fetches handle)) none := by
  induction calls generalizing t with
  | nil => rfl
  | cons call calls ih =>
      obtain ⟨hcall, hcalls⟩ := List.forall_mem_cons.mp hcalls
      rw [answers, Run.emitted]
      cases hf : call.fetches handle with
      | false =>
          have hnext := lookup_step arrow rd t hcall hf
          rw [List.countP_cons_of_neg (by simp [hf])]
          exact ih (hnext.trans hp) hcalls
      | true =>
          obtain ⟨hfetch, hnext⟩ := lookup_step_fetch arrow rd hf hp
          rw [(Producer.spent p).2] at hnext
          rw [hfetch, (Producer.spent p).1, List.countP_cons_of_pos hf, List.replicate_succ]
          exact congrArg (none :: ·) (ih hnext hcalls)

/-- A scan answers with its batch first, and then with nothing. -/
theorem answers_of_lookup {handle : Nat} {t : Session} {p : Producer} {batch : TableBatch}
    (hp : t.scans.lookup handle = some p) (hbatch : p.nextBatch.1 = some batch)
    {calls : List (Call vgi)} (hcalls : ∀ call ∈ calls, call.opens handle = false) :
    answers vgi arrow rd handle t calls
      = (List.replicate (calls.countP (Call.fetches handle)) none).set 0 (some batch) := by
  induction calls generalizing t with
  | nil => rfl
  | cons call calls ih =>
      obtain ⟨hcall, hcalls⟩ := List.forall_mem_cons.mp hcalls
      rw [answers, Run.emitted]
      cases hf : call.fetches handle with
      | false =>
          have hnext := lookup_step arrow rd t hcall hf
          rw [List.countP_cons_of_neg (by simp [hf])]
          exact ih (hnext.trans hp) hcalls
      | true =>
          obtain ⟨hfetch, hnext⟩ := lookup_step_fetch arrow rd hf hp
          rw [hfetch, hbatch, List.countP_cons_of_pos hf, List.replicate_succ, List.set_cons_zero]
          exact congrArg (some batch :: ·) (answers_spent hnext hcalls)

/-- **An open scan emits its batch once**, the first time it is asked, and it is the batch of the
producer that was made when the scan was opened, whatever is called in between. -/
theorem emitted_once {f : TableFunction} {args : vgi.Arguments} {w : World} {t : Session}
    {p : Producer} {s : SymbolsState}
    (hopen : f.producer vgi rd w.fs t.state args = (.ok p, s)) (handle : Nat)
    {calls : List (Call vgi)} (hcalls : ∀ call ∈ calls, call.opens handle = false) :
    ∃ batch, p.nextBatch.1 = some batch ∧
      answers vgi arrow rd handle (step vgi arrow rd t (.openScan handle f args w)) calls
        = (List.replicate (calls.countP (Call.fetches handle)) none).set 0 (some batch) := by
  obtain ⟨batch, hbatch⟩ := TableFunction.exists_batch hopen
  have hp : (step vgi arrow rd t (.openScan handle f args w)).scans.lookup handle = some p := by
    rw [step, hopen]
    exact AList.lookup_insert _
  exact ⟨batch, hbatch, answers_of_lookup hp hbatch hcalls⟩

end Scans

/-- A `vgi` for concrete inputs, with text arguments only. -/
def StandIn.vgiTables : VgiTables :=
  { VgiSymbols.StandIn.vgi with
    arg := fun call pos =>
      (call.positional[pos]?.bind SqlValue.asStr).map fun s => .utf8 [some s] }

/-- The sources are listed before one more is added, and fetched after that. -/
theorem emitted_once_sources :
    let w := VgiSymbols.StandIn.oneImage
    let t : Session := ⟨VgiSymbols.StandIn.oneImageAdded, ∅⟩
    let calls : List (Call StandIn.vgiTables) :=
      [.openScan 1 .addSource (⟨[.varchar "inline"], []⟩ : SqlCall) w, .nextBatch 0, .nextBatch 0]
    let all : SqlCall := ⟨[], []⟩
    ∃ batch, (ListSources.producer StandIn.vgiTables t.state all).nextBatch.1 = some batch ∧
      answers StandIn.vgiTables VgiSymbols.StandIn.arrow VgiSymbols.StandIn.readers 0
        (step StandIn.vgiTables VgiSymbols.StandIn.arrow VgiSymbols.StandIn.readers t
          (.openScan 0 .listSources all w)) calls = [some batch, none] :=
  emitted_once (f := .listSources) rfl 0 (by decide)

end Worker

end VgiSymbols
