import Mathlib.Data.List.Sort
import U2os.Lib.Table
import U2os.Server.Agent.ObservationFilter

/-!
# Conversations, as a model is given them

The messages of conversations and what the runs say of their output: `agent/conversation-store.js`
and the output classification of `agent/run-store.js`, with the filter of
`agent/conversation-history-filter.js` that every model call applies for its own destination.

The check of the owner is left out: a query for somebody else's conversation reads nothing.
-/

namespace U2os.Server.Agent

open Policy

/-- What a transcript reads of a row of `agent_runs`. -/
structure TranscriptRun where
  id : String
  status : String
  objectiveStatus : Option String
  outputClassification : Classification
deriving DecidableEq

/-- The author of a message. -/
inductive Role where
  | user | assistant | system
deriving DecidableEq

/-- A row of `conversation_messages`. -/
structure MessageRow where
  rowid : ℕ
  id : String
  sessionId : String
  role : Role
  content : String
  runId : Option String
  classification : Classification
  createdAt : ℕ
deriving DecidableEq

/-- The rows. -/
structure TranscriptStore where
  runs : Table TranscriptRun TranscriptRun.id
  messages : List MessageRow

/-- `recordOutputClassification`: what is not known to be private is sensitive, for good. -/
def recordOutputClassification (s : TranscriptStore) (runId : String)
    (classification : Option Classification) : TranscriptStore :=
  if classification = some .private_ then s
  else
    { s with
      runs := s.runs.updateWhere (fun r => r.id = runId)
        (fun r => { r with outputClassification := .sensitive }) fun _ => rfl }

def getOutputClassification (s : TranscriptStore) (runId : String) : Classification :=
  if (s.runs.find runId).map TranscriptRun.outputClassification = some .private_ then .private_
  else .sensitive

def appendTurn (s : TranscriptStore) (id sessionId : String) (role : Role) (content : String)
    (runId : Option String) (classification : Classification) (now : ℕ) : TranscriptStore :=
  { s with
    messages := s.messages ++
      [{ rowid := s.messages.length + 1, id := id, sessionId := sessionId, role := role
         content := content, runId := runId, classification := classification, createdAt := now }] }

/-- A turn, as a query reads it. -/
structure PriorTurn where
  turnId : String
  role : Role
  content : String
  truncated : Bool
  classification : Classification
  runId : Option String
  runStatus : Option String
  objectiveStatus : Option String
deriving DecidableEq

/-- The classification a query gives to a message. -/
def turnClassification (s : TranscriptStore) (m : MessageRow) : Classification :=
  if m.classification = .sensitive ∨ m.role = .assistant ∧
      (((m.runId.bind s.runs.find).map TranscriptRun.outputClassification).getD .sensitive) ≠
        .private_ then .sensitive
  else .private_

/-- A message, as a query reads it. -/
def presentTurn (s : TranscriptStore) (m : MessageRow) : PriorTurn :=
  let run := m.runId.bind s.runs.find
  { turnId := m.id
    role := m.role
    content := String.ofList (m.content.toList.take 500)
    truncated := 500 < m.content.length
    classification := turnClassification s m
    runId := m.runId
    runStatus := run.map TranscriptRun.status
    objectiveStatus := run.bind TranscriptRun.objectiveStatus }

/-- `ORDER BY created_at DESC, rowid DESC`. -/
def newerFirst (a b : MessageRow) : Prop :=
  b.createdAt < a.createdAt ∨ a.createdAt = b.createdAt ∧ b.rowid ≤ a.rowid

instance : DecidableRel newerFirst := fun a b => by unfold newerFirst; infer_instance

/-- The message is an authored turn of the conversation, and of another run. -/
def isPriorTurn (id currentRunId : String) (m : MessageRow) : Bool :=
  m.sessionId = id && (m.role = .user || m.role = .assistant) && m.runId.isSome &&
    m.runId ≠ some currentRunId

def priorAuthoredTurns (s : TranscriptStore) (id currentRunId : String) (limit offset : ℕ) :
    List PriorTurn :=
  (((((s.messages.filter (isPriorTurn id currentRunId)).insertionSort newerFirst).drop offset).take
    limit).reverse).map (presentTurn s)

def getPriorTurnsForModel (s : TranscriptStore) (id currentRunId : String) : List PriorTurn :=
  priorAuthoredTurns s id currentRunId 6 0

def getEarlierTurnsForSummary (s : TranscriptStore) (id currentRunId : String) : List PriorTurn :=
  priorAuthoredTurns s id currentRunId 6 6

/-- The UTF-16 units of a character. -/
def utf16Units (c : Char) : ℕ := if c.toNat < 65536 then 1 else 2

/-- The length of a string, in UTF-16 units. -/
def utf16Length (s : String) : ℕ := (s.toList.map utf16Units).sum

/-- The characters that fit into so many units. -/
def fitting : ℕ → List Char → List Char
  | _, [] => []
  | n, c :: cs => if utf16Units c ≤ n then c :: fitting (n - utf16Units c) cs else []

/-- `slice(0, n)`; half of a pair is dropped. -/
def slice (n : ℕ) (s : String) : String := String.ofList (fitting n s.toList)

/-- A turn a model is given. -/
structure HistoryItem where
  turnId : String
  runId : Option String
  runStatus : Option String
  objectiveStatus : Option String
  role : Role
  classification : Classification
  content : String
  truncated : Bool
deriving DecidableEq

/-- A turn that was left out, and why. -/
structure HistoryOmission where
  turnId : String
  destination : String
  classification : Option Classification
  decision : Option Decision
  rule : Option String
  reason : Option String
deriving DecidableEq

/-- The fields of an item that say where it is from. -/
def HistoryItem.source (item : HistoryItem) : List (String × Json) :=
  [("turnId", .str item.turnId), ("runId", .ofOptionStr item.runId),
    ("runStatus", .ofOptionStr item.runStatus),
    ("objectiveStatus", .ofOptionStr item.objectiveStatus),
    ("role", .str (if item.role = .assistant then "assistant" else "user")),
    ("classification", .str item.classification.text)]

/-- An item, as the model reads it. -/
def HistoryItem.toJson (item : HistoryItem) : Json :=
  .obj (item.source ++ [("content", .str item.content), ("truncated", .bool item.truncated)])

/-- The classification the filter goes by: private at least. -/
def historyClass (turn : PriorTurn) : Classification :=
  if turn.classification = .sensitive then .sensitive else .private_

/-- The item of a turn. -/
def historyItem (turn : PriorTurn) : HistoryItem where
  turnId := slice 100 turn.turnId
  runId := turn.runId.map (slice 100)
  runStatus := turn.runStatus.map (slice 50)
  objectiveStatus := turn.objectiveStatus.map (slice 50)
  role := if turn.role = .assistant then .assistant else .user
  classification := historyClass turn
  content := slice 500 turn.content
  truncated := turn.truncated || decide (500 < utf16Length turn.content)

/-- The loop of `filterConversationHistoryForDestination`: the place of the turn, and the
characters that are left. -/
def filterTurns (P : DataPolicies) (destination : String) :
    ℕ → ℕ → List PriorTurn → List HistoryItem × List HistoryOmission
  | _, _, [] => ([], [])
  | index, remaining, turn :: turns =>
    let turnId := slice 100 turn.turnId
    if 6 ≤ index then
      let rest := filterTurns P destination (index + 1) remaining turns
      (rest.1, ⟨turnId, destination, none, none, none, some "history-limit"⟩ :: rest.2)
    else
      let evaluation := P.evaluate (historyClass turn) destination
      if evaluation.decision ≠ .allow then
        let rest := filterTurns P destination (index + 1) remaining turns
        (rest.1, ⟨turnId, destination, some (historyClass turn), some evaluation.decision,
          some evaluation.rule, none⟩ :: rest.2)
      else
        let item := historyItem turn
        let size := utf16Length item.toJson.render
        if remaining < size then
          let rest := filterTurns P destination (index + 1) remaining turns
          (rest.1, ⟨turnId, destination, some (historyClass turn), none, none,
            some "payload-limit"⟩ :: rest.2)
        else
          let rest := filterTurns P destination (index + 1) (remaining - size) turns
          (item :: rest.1, rest.2)

def filterConversationHistoryForDestination (P : DataPolicies) (turns : List PriorTurn)
    (destination : String) : List HistoryItem × List HistoryOmission :=
  filterTurns P destination 0 4000 turns

def summaryEntry (item : HistoryItem) : Json :=
  .obj (item.source ++ [("excerpt", .str (slice 160 item.content)),
    ("truncated", .bool (item.truncated || decide (160 < utf16Length item.content)))])

/-- `summarizeEarlierTurnsForDestination`; `null` when there is nothing to summarize. -/
def summarizeEarlierTurnsForDestination (P : DataPolicies) (sources : List PriorTurn)
    (destination : String) : Json × List HistoryOmission :=
  let filtered := filterConversationHistoryForDestination P sources destination
  let entries := (filtered.1.filter fun item => item.turnId ≠ "").map summaryEntry
  (if entries = [] then .null
    else
      .obj [("kind", .str "extractive"),
        ("coverage", .str
          ("Up to six authored turns before recent history; excerpts only, not the full " ++
            "conversation or established facts.")),
        ("entries", .arr entries)],
    filtered.2)

/-- A turn without its text. -/
def PriorTurn.redact (turn : PriorTurn) : PriorTurn :=
  if turn.classification = .sensitive then { turn with content := "", truncated := false } else turn

theorem filterTurns_redact {P : DataPolicies} {destination : String}
    (hP : ¬ P.Allows .sensitive destination) (turns : List PriorTurn) (index remaining : ℕ) :
    filterTurns P destination index remaining (turns.map PriorTurn.redact) =
      filterTurns P destination index remaining turns := by
  induction turns generalizing index remaining with
  | nil => rfl
  | cons turn turns ih =>
    by_cases hs : turn.classification = .sensitive
    · -- It is left out, with its place and its class.
      have hclass : historyClass turn.redact = historyClass turn := by
        simp [PriorTurn.redact, historyClass, hs]
      have hid : turn.redact.turnId = turn.turnId := by
        simp [PriorTurn.redact, hs]
      have hdeny : (P.evaluate (historyClass turn) destination).decision ≠ .allow := by
        rwa [historyClass, if_pos hs]
      simp only [List.map_cons, filterTurns, hclass, hid, ih]
      rw [if_pos hdeny, if_pos hdeny]
    · have hredact : turn.redact = turn := by simp [PriorTurn.redact, hs]
      simp only [List.map_cons, filterTurns, hredact, ih]

/-- A message without its text, when a query counts it as sensitive. -/
def MessageRow.redact (s : TranscriptStore) (m : MessageRow) : MessageRow :=
  if turnClassification s m = .sensitive then { m with content := "" } else m

theorem redact_fields (s : TranscriptStore) (m : MessageRow) :
    (m.redact s).createdAt = m.createdAt ∧ (m.redact s).rowid = m.rowid ∧
      (∀ id cur, isPriorTurn id cur (m.redact s) = isPriorTurn id cur m) := by
  unfold MessageRow.redact
  split_ifs <;> exact ⟨rfl, rfl, fun _ _ => rfl⟩

theorem presentTurn_redact (s : TranscriptStore) (m : MessageRow) :
    (presentTurn s (m.redact s)).redact = (presentTurn s m).redact := by
  unfold MessageRow.redact
  by_cases hs : turnClassification s m = .sensitive
  · rw [if_pos hs]
    have hs' : turnClassification s { m with content := "" } = .sensitive := hs
    simp [presentTurn, PriorTurn.redact, hs, hs']
  · rw [if_neg hs]

theorem priorAuthoredTurns_redact (s : TranscriptStore) (id currentRunId : String)
    (limit offset : ℕ) :
    (priorAuthoredTurns { s with messages := s.messages.map (MessageRow.redact s) } id currentRunId
      limit offset).map PriorTurn.redact =
      (priorAuthoredTurns s id currentRunId limit offset).map PriorTurn.redact := by
  have hpresent : presentTurn { s with messages := s.messages.map (MessageRow.redact s) } =
      presentTurn s := rfl
  have hfilter : (s.messages.map (MessageRow.redact s)).filter (isPriorTurn id currentRunId) =
      (s.messages.filter (isPriorTurn id currentRunId)).map (MessageRow.redact s) := by
    rw [List.filter_map]
    congr 1
    refine List.filter_congr fun m _ => ?_
    exact (redact_fields s m).2.2 id currentRunId
  have hsort : ∀ l : List MessageRow, (l.map (MessageRow.redact s)).insertionSort newerFirst =
      (l.insertionSort newerFirst).map (MessageRow.redact s) := by
    intro l
    refine (List.map_insertionSort _ _ _ l fun a _ b _ => ?_).symm
    obtain ⟨ha, hra, _⟩ := redact_fields s a
    obtain ⟨hb, hrb, _⟩ := redact_fields s b
    simp only [newerFirst, ha, hb, hra, hrb]
  unfold priorAuthoredTurns
  rw [hpresent, hfilter, hsort, ← List.map_drop, ← List.map_take, ← List.map_reverse, List.map_map,
    List.map_map, List.map_map]
  exact List.map_congr_left fun m _ => presentTurn_redact s m

end U2os.Server.Agent
