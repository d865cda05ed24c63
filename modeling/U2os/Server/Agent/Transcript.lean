import U2os.Lib.Run
import U2os.Server.Agent.ConversationStore

/-!
# What a transcript carries from one run to the next

A run reads the prior turns of its conversation, hands them with its context to a model, takes up
the plan that comes back with the classification of what that very call was given, and writes its
answer as a turn.  Calls of several runs overlap, a call may fail and another provider be asked, a
plan may come too late, and a run may be resumed after a restart.
-/

namespace U2os.Server.Agent

open Policy List Option

/-- What a model call is given besides the transcript, after the filters of its destination. -/
structure CallContext where
  personalContext : Json
  observations : List Json
  priorReadArtifacts : List Json
  attachedContext : Json

/-- What `_planWith` classifies: everything the provider is given of the owner's data. -/
def payload (P : DataPolicies) (destination : String) (history sources : List PriorTurn)
    (x : CallContext) : Json :=
  .obj [("personalContext", x.personalContext), ("observations", .arr x.observations),
    ("history", .arr ((filterConversationHistoryForDestination P history destination).1.map
      HistoryItem.toJson)),
    ("conversationSummary", (summarizeEarlierTurnsForDestination P sources destination).1),
    ("priorReadArtifacts", .arr x.priorReadArtifacts), ("attachedContext", x.attachedContext)]

/-- A message at work, or a resumed run. -/
structure TurnWork where
  runId : String
  sessionId : Option String
  resumed : Bool
  history : List PriorTurn
  sources : List PriorTurn

/-- A model call on its way, with the classification of its output. -/
structure ModelCall where
  runId : String
  payload : Json
  outputClassification : Classification

/-- The rows, the messages at work, and the calls. -/
structure TranscriptState where
  store : TranscriptStore
  turns : List TurnWork
  calls : ℕ → Option ModelCall
  /-- The run and the payload of every call made. -/
  sent : List (String × Json)
  /-- The run and the payload of every call whose plan was taken up. -/
  taken : List (String × Json)

/-- What can happen. -/
inductive TranscriptLabel where
  /-- `handleMessage`, up to the user's turn. -/
  | handleMessage (runId messageId : String) (sessionId : Option String) (text : String) (now : ℕ)
  /-- A run is resumed. -/
  | resume (runId : String) (sessionId : Option String)
  /-- The prior turns are read. -/
  | assemble (t : ℕ)
  /-- `_planWith` calls a provider: the first one, or a fallback. -/
  | call (c t : ℕ) (destination : String) (context : CallContext)
  /-- The plan is taken up; `isObject` is that the provider returned an object. -/
  | returned (c : ℕ) (isObject : Bool)
  /-- The provider throws, or the plan is discarded: the run was cancelled, its budget is
  exhausted, or its process stopped. -/
  | dropped (c : ℕ)
  /-- The assistant's turn is written. -/
  | answer (t : ℕ) (messageId response : String) (now : ℕ)
  /-- The turn of a message that failed. -/
  | fail (t : ℕ) (messageId : String) (now : ℕ)
  /-- Everything else that writes the run. -/
  | setRun (runId status : String) (objectiveStatus : Option String)

/-- The prior turns of a conversation, for one of its runs. -/
def priorTurns (s : TranscriptStore) (w : TurnWork) : TurnWork :=
  match w.sessionId with
  | none => w
  | some id =>
    { w with
      history := getPriorTurnsForModel s id w.runId
      sources := getEarlierTurnsForSummary s id w.runId }

/-- The turn of a message that failed. -/
def failedTurn : String :=
  "This turn failed. No completion was claimed; check run status for any attempted or uncertain " ++
    "action."

/-- A step of the machine. -/
def performTranscript (floors : Floors) (P : DataPolicies) (s : TranscriptState) :
    TranscriptLabel → Option TranscriptState
  | .handleMessage runId messageId sessionId text now =>
    (s.store.runs.insert? ⟨runId, "planning", none, .private_⟩).map fun runs =>
      { s with
        store :=
          match sessionId with
          | none => { s.store with runs := runs }
          | some id =>
            appendTurn { s.store with runs := runs } messageId id .user text (some runId) .private_ now
        turns := s.turns ++ [⟨runId, sessionId, false, [], []⟩] }
  | .resume runId sessionId =>
    if (s.store.runs.find runId).isSome then
      some { s with turns := s.turns ++ [⟨runId, sessionId, true, [], []⟩] }
    else none
  | .assemble t => some { s with turns := s.turns.modify t (priorTurns s.store) }
  | .call c t destination context =>
    match s.calls c, s.turns[t]? with
    | none, some w =>
      let data := payload P destination w.history w.sources context
      some { s with
        calls := Function.update s.calls c
          (some ⟨w.runId, data, classifyObservation floors "model.context" data false⟩)
        sent := s.sent ++ [(w.runId, data)] }
    | _, _ => none
  | .returned c isObject =>
    match s.calls c with
    | none => none
    | some m =>
      some { s with
        store := recordOutputClassification s.store m.runId
          (if isObject then some m.outputClassification else none)
        calls := Function.update s.calls c none
        taken := s.taken ++ [(m.runId, m.payload)] }
  | .dropped c => some { s with calls := Function.update s.calls c none }
  | .answer t messageId response now =>
    match s.turns[t]? with
    | some ⟨runId, some id, false, _, _⟩ =>
      some { s with
        store := appendTurn s.store messageId id .assistant response (some runId)
          (getOutputClassification s.store runId) now }
    | _ => none
  | .fail t messageId now =>
    match s.turns[t]? with
    | some ⟨runId, some id, false, _, _⟩ =>
      some { s with
        store := appendTurn s.store messageId id .system failedTurn (some runId) .private_ now }
    | _ => none
  | .setRun runId status objectiveStatus =>
    some { s with
      store := { s.store with
        runs := s.store.runs.updateWhere (fun r => r.id = runId)
          (fun r => { r with status := status, objectiveStatus := objectiveStatus }) fun _ => rfl } }

/-- The runs of one owner. -/
def transcriptMachine (floors : Floors) (P : DataPolicies) :
    Machine TranscriptState TranscriptLabel :=
  .ofPerform
    { store := { runs := .empty, messages := [] }
      turns := []
      calls := fun _ => none
      sent := []
      taken := [] } (performTranscript floors P)

/-- Every later run reads the assistant's turns of a run as sensitive. -/
def TreatedSensitive (s : TranscriptStore) (runId : String) : Prop :=
  ∀ id currentRunId limit offset, ∀ turn ∈ priorAuthoredTurns s id currentRunId limit offset,
    turn.role = .assistant → turn.runId = some runId → turn.classification = .sensitive

/-- Two lists of messages differ only in the texts of some. -/
def SameBut (p : MessageRow → Prop) : List MessageRow → List MessageRow → Prop :=
  List.Forall₂ fun m m' => m' = { m with content := m'.content } ∧ (p m ∨ m' = m)

/-- The assistant's turns of the runs whose payloads had a sensitive label are sensitive, and a
destination that may not have sensitive data is given the same history and the same summary
whatever they say. -/
structure Concealed (P : DataPolicies) (s : TranscriptStore) (payloads : List (String × Json)) :
    Prop where
  treated : ∀ x ∈ payloads, Labelled x.2 → TreatedSensitive s x.1
  unread : ∀ destination, ¬ P.Allows .sensitive destination → ∀ messages,
    SameBut (fun m => m.role = .assistant ∧ ∃ x ∈ payloads, Labelled x.2 ∧ m.runId = some x.1)
      s.messages messages → ∀ id currentRunId,
    filterConversationHistoryForDestination P
        (getPriorTurnsForModel { s with messages := messages } id currentRunId) destination =
      filterConversationHistoryForDestination P (getPriorTurnsForModel s id currentRunId)
        destination ∧
    summarizeEarlierTurnsForDestination P
        (getEarlierTurnsForSummary { s with messages := messages } id currentRunId) destination =
      summarizeEarlierTurnsForDestination P (getEarlierTurnsForSummary s id currentRunId)
        destination

variable {s : TranscriptStore}

theorem treatedSensitive_of_runs {runId : String}
    (h : ∀ r ∈ s.runs, r.id = runId → r.outputClassification = .sensitive) {m : MessageRow}
    (hrole : m.role = .assistant) (hrun : m.runId = some runId) :
    turnClassification s m = .sensitive := by
  unfold turnClassification
  refine if_pos (.inr ⟨hrole, ?_⟩)
  rw [hrun, bind_some]
  cases hf : s.runs.find runId with
  | none => decide
  | some r =>
    rw [map_some, getD_some, h r (Table.mem_of_find hf) (Table.key_of_find hf)]
    decide

variable {P : DataPolicies}

theorem filtered_eq {destination : String}
    (hP : ¬ P.Allows .sensitive destination) {s : TranscriptStore} {messages : List MessageRow}
    (hm : messages.map (MessageRow.redact s) = s.messages.map (MessageRow.redact s))
    (id currentRunId : String) (limit offset : ℕ) :
    filterConversationHistoryForDestination P
        (priorAuthoredTurns { s with messages := messages } id currentRunId limit offset)
        destination =
      filterConversationHistoryForDestination P
        (priorAuthoredTurns s id currentRunId limit offset) destination := by
  have hturns : (priorAuthoredTurns { s with messages := messages } id currentRunId limit
      offset).map PriorTurn.redact =
      (priorAuthoredTurns s id currentRunId limit offset).map PriorTurn.redact := by
    rw [← priorAuthoredTurns_redact s, ← priorAuthoredTurns_redact { s with messages := messages }]
    change (priorAuthoredTurns { s with messages := messages.map (MessageRow.redact s) } id
      currentRunId limit offset).map PriorTurn.redact = _
    rw [hm]
  unfold filterConversationHistoryForDestination
  rw [← filterTurns_redact hP, hturns, filterTurns_redact hP]

theorem SameBut.map_redact {p : MessageRow → Prop}
    (hp : ∀ m, p m → turnClassification s m = .sensitive) {l l' : List MessageRow}
    (h : SameBut p l l') : l'.map (MessageRow.redact s) = l.map (MessageRow.redact s) := by
  induction h with
  | nil => rfl
  | @cons m m' l l' hmm _ ih =>
    obtain ⟨heq, hm⟩ := hmm
    have hredact : m'.redact s = m.redact s := by
      rcases hm with hm | rfl
      · -- Both texts are left out.
        have hs := hp m hm
        have hs' : turnClassification s m' = .sensitive := by
          rw [heq]
          exact hs
        rw [MessageRow.redact, MessageRow.redact, if_pos hs, if_pos hs', heq]
      · rfl
    rw [map_cons, map_cons, ih, hredact]

theorem concealed_of_runs {payloads : List (String × Json)}
    (h : ∀ x ∈ payloads, Labelled x.2 → ∀ r ∈ s.runs, r.id = x.1 →
      r.outputClassification = .sensitive) : Concealed P s payloads := by
  refine ⟨?_, ?_⟩
  · intro x hx hl id currentRunId limit offset turn hturn hrole hrun
    obtain ⟨m, _, rfl⟩ := List.mem_map.1 hturn
    exact treatedSensitive_of_runs (h x hx hl) hrole hrun
  · intro destination hP messages hsame id currentRunId
    have hm : messages.map (MessageRow.redact s) = s.messages.map (MessageRow.redact s) := by
      refine hsame.map_redact ?_
      rintro m ⟨hrole, x, hx, hl, hrun⟩
      exact treatedSensitive_of_runs (h x hx hl) hrole hrun
    constructor
    · exact filtered_eq hP hm id currentRunId 6 0
    · unfold summarizeEarlierTurnsForDestination getEarlierTurnsForSummary
      rw [filtered_eq hP hm id currentRunId 6 6]

/-! ### The invariant -/

/-- A run keeps its id, and its mark. -/
def KeepsMark (r r' : TranscriptRun) : Prop :=
  r'.id = r.id ∧ (r.outputClassification = .sensitive → r'.outputClassification = .sensitive)

theorem KeepsMark.refl (r : TranscriptRun) : KeepsMark r r := ⟨rfl, fun h => h⟩

/-- Runs are only added, and what marks one stays. -/
abbrev RunsGrow (s t : TranscriptStore) : Prop := s.runs.Evolves KeepsMark (fun _ => True) t.runs

/-- The run of the payload, marked if the payload has a sensitive label. -/
def MarkedFor (s : TranscriptStore) (x : String × Json) : Prop :=
  ∃ r ∈ s.runs, r.id = x.1 ∧ (Labelled x.2 → r.outputClassification = .sensitive)

/-- Messages and calls are of runs, and the runs of plans taken up are marked. -/
structure TranscriptState.Sound (s : TranscriptState) : Prop where
  turns : ∀ w ∈ s.turns, ∃ r ∈ s.store.runs, r.id = w.runId
  calls : ∀ c m, s.calls c = some m → (∃ r ∈ s.store.runs, r.id = m.runId) ∧
    (Labelled m.payload → m.outputClassification = .sensitive)
  taken : ∀ x ∈ s.taken, MarkedFor s.store x

theorem RunsGrow.exists {t : TranscriptStore} (h : RunsGrow s t) {k : String}
    (hk : ∃ r ∈ s.runs, r.id = k) : ∃ r ∈ t.runs, r.id = k := by
  obtain ⟨r, hr, rfl⟩ := hk
  obtain ⟨r', hr', hid, _⟩ := h.goes r hr
  exact ⟨r', hr', hid⟩

theorem RunsGrow.marked {t : TranscriptStore} (h : RunsGrow s t) {x : String × Json}
    (hx : MarkedFor s x) : MarkedFor t x := by
  obtain ⟨r, hr, hid, hmark⟩ := hx
  obtain ⟨r', hr', hid', hmark'⟩ := h.goes r hr
  exact ⟨r', hr', hid'.trans hid, fun hl => hmark' (hmark hl)⟩

theorem RunsGrow.updateWhere (s : TranscriptStore) (k : String) {f : TranscriptRun → TranscriptRun}
    (hkey : ∀ r, (f r).id = r.id)
    (hf : ∀ r, r.outputClassification = .sensitive → (f r).outputClassification = .sensitive) :
    RunsGrow s { s with runs := s.runs.updateWhere (fun r => r.id = k) f hkey } :=
  Table.Evolves.updateWhere hkey KeepsMark.refl fun r _ _ => ⟨hkey r, hf r⟩

theorem runsGrow_recordOutputClassification (s : TranscriptStore) (runId : String)
    (classification : Option Classification) :
    RunsGrow s (recordOutputClassification s runId classification) := by
  unfold recordOutputClassification
  split_ifs
  · exact .refl .refl _
  · exact RunsGrow.updateWhere s runId (f := fun r => { r with outputClassification := .sensitive })
      (fun _ => rfl) fun _ _ => rfl

theorem marked_recordOutputClassification {runId : String}
    (hrun : ∃ r ∈ s.runs, r.id = runId) {classification : Option Classification}
    (hne : classification ≠ some .private_) {data : Json} :
    MarkedFor (recordOutputClassification s runId classification) (runId, data) := by
  obtain ⟨r, hr, hid⟩ := hrun
  have hmem := Table.updateWhere_mem (p := fun r : TranscriptRun => r.id = runId)
    (f := fun r => { r with outputClassification := .sensitive }) (fun _ => rfl) hr
  rw [if_pos hid] at hmem
  unfold recordOutputClassification
  rw [if_neg hne]
  exact ⟨_, hmem, hid, fun _ => rfl⟩

/-- More runs and fewer turns under way keep the transcript in line. -/
theorem TranscriptState.Sound.grow {s t : TranscriptState} (hs : s.Sound)
    (hruns : RunsGrow s.store t.store)
    (hturns : ∀ w ∈ t.turns, (∃ r ∈ t.store.runs, r.id = w.runId) ∨
      ∃ w' ∈ s.turns, w'.runId = w.runId)
    (hcalls : ∀ c m, t.calls c = some m → s.calls c = some m)
    (htaken : t.taken = s.taken) : t.Sound := by
  refine ⟨?_, ?_, ?_⟩
  · intro w hw
    rcases hturns w hw with h | ⟨w', hw', hid⟩
    · exact h
    · exact hruns.exists (hid ▸ hs.turns w' hw')
  · intro c m hm
    obtain ⟨hrun, hclass⟩ := hs.calls c m (hcalls c m hm)
    exact ⟨hruns.exists hrun, hclass⟩
  · intro x hx
    exact hruns.marked (hs.taken x (htaken ▸ hx))

theorem TranscriptState.Sound.init (floors : Floors) (P : DataPolicies) :
    (transcriptMachine floors P).init.Sound :=
  ⟨fun _ hw => absurd hw not_mem_nil, fun _ _ h => (some_ne_none _ h.symm).elim,
    fun _ hx => absurd hx not_mem_nil⟩

theorem priorTurns_runId (s : TranscriptStore) (w : TurnWork) :
    (priorTurns s w).runId = w.runId := by
  unfold priorTurns
  split <;> rfl

/-- Every step keeps the transcript in line with the runs. -/
theorem TranscriptState.Sound.step {floors : Floors} {s t : TranscriptState} {l : TranscriptLabel}
    (hs : s.Sound) (h : performTranscript floors P s l = some t) :
    t.Sound := by
  have hkeep : ∀ w ∈ s.turns, (∃ r ∈ s.store.runs, r.id = w.runId) ∨
      ∃ w' ∈ s.turns, w'.runId = w.runId := fun w hw => .inr ⟨w, hw, rfl⟩
  cases l with
  | handleMessage runId messageId sessionId text now =>
    obtain ⟨runs, hruns, rfl⟩ := map_eq_some_iff.1 h
    have hgrow : s.store.runs.Evolves KeepsMark (fun _ => True) runs :=
      .insert .refl hruns trivial
    have hnew : ∃ r ∈ runs, r.id = runId := ⟨_, (Table.mem_of_insert? hruns).2 (.inr rfl), rfl⟩
    have hstore : ∀ store : TranscriptStore, store.runs = runs →
        TranscriptState.Sound { s with
          store := store
          turns := s.turns ++ [⟨runId, sessionId, false, [], []⟩] } := by
      rintro store rfl
      refine hs.grow hgrow ?_ (fun _ _ h => h) rfl
      intro w hw
      rcases List.mem_append.1 hw with hw | hw
      · exact .inr ⟨w, hw, rfl⟩
      · obtain rfl := mem_singleton.1 hw
        exact .inl hnew
    refine hstore _ ?_
    cases sessionId with
    | none => rfl
    | some id => rfl
  | resume runId sessionId =>
    obtain ⟨hfound, h⟩ := ite_none_right_eq_some.1 h
    cases h
    obtain ⟨r, hr⟩ := isSome_iff_exists.1 hfound
    refine hs.grow (.refl .refl _) ?_ (fun _ _ h => h) rfl
    intro w hw
    rcases List.mem_append.1 hw with hw | hw
    · exact .inr ⟨w, hw, rfl⟩
    · exact .inl ⟨r, Table.mem_of_find hr, mem_singleton.1 hw ▸ Table.key_of_find hr⟩
  | assemble i =>
    cases h
    refine hs.grow (.refl .refl _) ?_ (fun _ _ h => h) rfl
    intro w hw
    obtain ⟨j, hj⟩ := mem_iff_getElem?.1 hw
    rw [getElem?_modify] at hj
    obtain ⟨w', hw', rfl⟩ := map_eq_some_iff.1 hj
    refine .inr ⟨w', mem_iff_getElem?.2 ⟨j, hw'⟩, ?_⟩
    split_ifs
    · exact (priorTurns_runId _ _).symm
    · rfl
  | call c i destination context =>
    simp only [performTranscript] at h
    split at h
    · rename_i w _ hw
      cases h
      refine ⟨hs.turns, ?_, hs.taken⟩
      intro c' m hm
      rcases of_update_some hm with ⟨_, rfl⟩ | ⟨_, hm⟩
      · exact ⟨hs.turns w (mem_of_getElem? hw), classifyObservation_of_labelled⟩
      · exact hs.calls c' m hm
    · cases h
  | returned c isObject =>
    simp only [performTranscript] at h
    split at h
    · cases h
    rename_i m hm
    cases h
    obtain ⟨hrun, hclass⟩ := hs.calls c m hm
    have hgrow := runsGrow_recordOutputClassification s.store m.runId
      (if isObject then some m.outputClassification else none)
    refine ⟨fun w hw => hgrow.exists (hs.turns w hw), ?_, ?_⟩
    · intro c' m' hm'
      obtain ⟨_, hm'⟩ := of_update_none hm'
      exact ⟨hgrow.exists (hs.calls c' m' hm').1, (hs.calls c' m' hm').2⟩
    · intro x hx
      rcases List.mem_append.1 hx with hx | hx
      · exact hgrow.marked (hs.taken x hx)
      obtain rfl := mem_singleton.1 hx
      by_cases hl : Labelled m.payload
      · -- The classification recorded is that of this very call.
        refine marked_recordOutputClassification hrun ?_
        rw [hclass hl]
        split_ifs <;> decide
      · obtain ⟨r, hr, hid⟩ := hgrow.exists hrun
        exact ⟨r, hr, hid, fun h => absurd h hl⟩
  | dropped c =>
    cases h
    exact hs.grow (.refl .refl _) hkeep (fun _ _ h => (of_update_none h).2) rfl
  | answer i messageId response now =>
    simp only [performTranscript] at h
    split at h
    · cases h
      exact hs.grow (.refl .refl _) hkeep (fun _ _ h => h) rfl
    · cases h
  | fail i messageId now =>
    simp only [performTranscript] at h
    split at h
    · cases h
      exact hs.grow (.refl .refl _) hkeep (fun _ _ h => h) rfl
    · cases h
  | setRun runId status objectiveStatus =>
    cases h
    have hgrow : RunsGrow s.store _ := RunsGrow.updateWhere s.store runId (fun _ => rfl)
      (f := fun r => { r with status := status, objectiveStatus := objectiveStatus }) fun _ h => h
    exact hs.grow hgrow (fun w hw => .inr ⟨w, hw, rfl⟩) (fun _ _ h => h) rfl

/-- Sensitive data stays on the machine. -/
def localOnly : DataPolicies where
  policies c := some fun key =>
    some (if c = .sensitive ∧ key ≠ "local_models" then "never" else "allow")

/-- A sensitive observation. -/
def diagnosis : Json := .obj [("text", .str "diagnosis"), ("classification", .str "sensitive")]

/-- Nothing of the owner's but some observations. -/
def observing (observations : List Json) : CallContext := ⟨.null, observations, [], .null⟩

/-- The local model fails, and the remote one answers without the observation. -/
def fallbackRun : List TranscriptLabel :=
  [.handleMessage "run-1" "m-1" (some "session") "Hello" 1, .assemble 0,
    .call 0 0 "local_model" (observing [diagnosis]), .dropped 0,
    .call 0 0 "configured_remote_model" (observing []), .returned 0 true,
    .answer 0 "m-2" "Hello" 2]

theorem labelled_observing (P : DataPolicies) (destination : String)
    (history sources : List PriorTurn) {observations : List Json} {v : Json}
    (hv : v ∈ observations) (hl : Labelled v) :
    Labelled (payload P destination history sources (observing observations)) :=
  .inside rfl (by simp [observing]) (show Labelled (.arr observations) from .inside rfl hv hl)

/-- What the next run of the session is told of the assistant's turns, and the first payload. -/
def TranscriptState.view (s : TranscriptState) : List PriorTurn × Option (String × Json) :=
  ((getPriorTurnsForModel s.store "session" "run-2").filter fun turn => turn.role = .assistant,
    s.sent[0]?)

/-- The turn of a run, as the next run is told. -/
def answered (classification : Classification) : PriorTurn :=
  ⟨"m-2", .assistant, "Hello", false, classification, some "run-1", some "planning", none⟩

/-- A call that failed leaves no mark: the turn of its run is private. -/
theorem failed_call_is_not_classified :
    ∃ s, (transcriptMachine (fun _ => none) localOnly).Run fallbackRun s ∧
      ¬ Concealed localOnly s.store s.sent := by
  have hview : (Machine.drive (performTranscript (fun _ => none) localOnly) (fun _ _ => true)
      (transcriptMachine (fun _ => none) localOnly).init fallbackRun).map TranscriptState.view =
      some ([answered .private_], some ("run-1", payload localOnly "local_model" [] []
        (observing [diagnosis]))) := by decide +kernel
  obtain ⟨s, hs, hv⟩ := map_eq_some_iff.1 hview
  refine ⟨s, Machine.run_drive hs, fun hc => ?_⟩
  obtain ⟨hturns, hsent⟩ := Prod.mk.inj hv
  have hturn : answered .private_ ∈ getPriorTurnsForModel s.store "session" "run-2" := by
    refine mem_of_mem_filter (p := fun turn => turn.role = .assistant) ?_
    rw [hturns]
    exact mem_singleton_self _
  have := hc.treated _ (mem_of_getElem? hsent)
    (labelled_observing localOnly "local_model" [] [] (mem_singleton_self _) (.here rfl))
    _ _ _ _ _ hturn rfl rfl
  cases this

/-- The turns of a run that took up a plan made from sensitive data are kept from every
destination that may not have them. -/
theorem taken_calls_concealed {floors : Floors} {P : DataPolicies} {h : List TranscriptLabel}
    {s : TranscriptState} (hs : (transcriptMachine floors P).Run h s) :
    Concealed P s.store s.taken := by
  have hsound : s.Sound := hs.invariant (.init floors P) fun _ _ _ hs hst => hs.step hst
  refine concealed_of_runs fun x hx hl r' hr' hid' => ?_
  obtain ⟨r, hr, hid, hmark⟩ := hsound.taken x hx
  obtain rfl := s.store.runs.eq_of_key hr hr' (hid.trans hid'.symm)
  exact hmark hl

/-- The local model answers. -/
def localRun : List TranscriptLabel :=
  [.handleMessage "run-1" "m-1" (some "session") "Hello" 1, .assemble 0,
    .call 0 0 "local_model" (observing [diagnosis]), .returned 0 true, .answer 0 "m-2" "Hello" 2]

theorem taken_calls_concealed_localRun :
    ∃ s, (transcriptMachine (fun _ => none) localOnly).Run localRun s ∧
      Concealed localOnly s.store s.taken ∧
      s.taken = [("run-1", payload localOnly "local_model" [] [] (observing [diagnosis]))] := by
  have hview : (Machine.drive (performTranscript (fun _ => none) localOnly) (fun _ _ => true)
      (transcriptMachine (fun _ => none) localOnly).init localRun).map TranscriptState.taken =
      some [("run-1", payload localOnly "local_model" [] [] (observing [diagnosis]))] := by
    decide +kernel
  obtain ⟨s, hs, hv⟩ := map_eq_some_iff.1 hview
  exact ⟨s, Machine.run_drive hs, taken_calls_concealed (Machine.run_drive hs), hv⟩

end U2os.Server.Agent
