import PyNetX.LockedEdit
import PyNetX.Wire
/-!
# Requests — what a client asks, and what the device reads of it

The request texts take the caller's arguments as they are.  None of them makes a marker with what stands around it, so a
device that cuts the bytes at the marker reads one frame for each request, and one more for each marker in an argument
(`requests_read_iff`).
-/
namespace PyNetX

open Search (find splitOn closes)

/-- `<source><` … `/></source>`. -/
def sourceText (source : Bytes) : Bytes := ascii "<source><" ++ source ++ ascii "/></source>"

/-- The filter of a request, which has none for an empty one. -/
def filterText (filter : Bytes) : Bytes :=
  if filter = [] then [] else ascii "<filter type=\"subtree\">" ++ filter ++ ascii "</filter>"

/-- The text `get_non_blocking` and `get_blocking` send. -/
def getRpc (filter : Bytes) : Bytes := rpcText (ascii "<get>" ++ filterText filter ++ ascii "</get>")

/-- The text `get_config_non_blocking` and `get_config_blocking` send. -/
def getConfigRpc (source filter : Bytes) : Bytes :=
  rpcText (ascii "<get-config>" ++ sourceText source ++ filterText filter ++ ascii "</get-config>")

/-- The text `copy_config_non_blocking` and `copy_config_blocking` send. -/
def copyConfigRpc (target source : Bytes) : Bytes :=
  rpcText (ascii "<copy-config>" ++ targetText target ++ sourceText source ++ ascii "</copy-config>")

/-- The text `delete_config_non_blocking` and `delete_config_blocking` send. -/
def deleteConfigRpc (target : Bytes) : Bytes :=
  rpcText (ascii "<delete-config>" ++ targetText target ++ ascii "</delete-config>")

/-- What a client can ask. -/
inductive Request where
  | get (filter : Bytes)
  | getConfig (source filter : Bytes)
  | copyConfig (target source : Bytes)
  | deleteConfig (target : Bytes)
  | createSubscription (stream filter : Bytes)
  | operation (op : Operation)

def Request.rpc : Request → Bytes
  | .get filter => getRpc filter
  | .getConfig source filter => getConfigRpc source filter
  | .copyConfig target source => copyConfigRpc target source
  | .deleteConfig target => deleteConfigRpc target
  | .createSubscription stream filter => createSubscriptionRpc stream filter
  | .operation op => op.rpc

def Operation.arguments : Operation → List Bytes
  | .lock target | .unlock target => [target]
  | .commit => []
  | .validate source => [source]
  | .editConfig target config => [target, config]

/-- What the caller gives. -/
def Request.arguments : Request → List Bytes
  | .get filter => [filter]
  | .getConfig source filter => [source, filter]
  | .copyConfig target source => [target, source]
  | .deleteConfig target => [target]
  | .createSubscription stream filter => [stream, filter]
  | .operation op => op.arguments

/-! ## Markers in a request -/

/-- A text that takes part in no marker, with what is in front of it. -/
def Guards (text : Bytes) : Bool :=
  match text with
  | [] => false
  | c :: rest => decide (c ∉ eom) && decide (chBracket ∉ rest)

theorem closes_lead {lead : Bytes} (h : chBracket ∉ lead) (rest : Bytes) :
    closes eom (lead ++ rest) = closes eom rest :=
  Search.closes_append_of_head rest h

/-- **The text behind an argument separates it** from what comes then. -/
theorem closes_guarded {after : Bytes} (h : Guards after = true) (arg rest : Bytes) :
    closes eom (arg ++ (after ++ rest)) = closes eom arg + closes eom rest := by
  cases after with
  | nil => cases h
  | cons c after =>
    simp only [Guards, Bool.and_eq_true, decide_eq_true_eq] at h
    rw [List.cons_append, Search.closes_append_cons eom_ne_nil h.1, closes_lead h.2]

/-- **The markers of a part of a request are its argument's.** -/
theorem closes_part {before after : Bytes} (hb : chBracket ∉ before) (ha : Guards after = true) (arg rest : Bytes) :
    closes eom (before ++ arg ++ after ++ rest) = closes eom arg + closes eom rest := by
  rw [List.append_assoc, List.append_assoc, closes_lead hb, closes_guarded ha]

theorem closes_targetText (target rest : Bytes) :
    closes eom (targetText target ++ rest) = closes eom target + closes eom rest :=
  closes_part (by decide) (by decide) target rest

theorem closes_sourceText (source rest : Bytes) :
    closes eom (sourceText source ++ rest) = closes eom source + closes eom rest :=
  closes_part (by decide) (by decide) source rest

theorem closes_nil : closes eom [] = 0 := Search.closes_of_none (Search.find_nil_of_ne_nil eom_ne_nil)

theorem closes_filterText (filter rest : Bytes) :
    closes eom (filterText filter ++ rest) = closes eom filter + closes eom rest := by
  unfold filterText
  split
  · rename_i hempty
    rw [hempty, closes_nil, Nat.zero_add, List.nil_append]
  · exact closes_part (by decide) (by decide) filter rest

/-- **The text behind the last argument adds none.** -/
theorem closes_guarded_end {after : Bytes} (h : Guards after = true) (arg : Bytes) :
    closes eom (arg ++ after) = closes eom arg := by
  have hguard := closes_guarded h arg []
  rwa [List.append_nil, closes_nil, Nat.add_zero] at hguard

theorem closes_rpcText (operation : Bytes) : closes eom (rpcText operation) = closes eom operation := by
  rw [rpcText, List.append_assoc, List.append_assoc, closes_lead (by decide), closes_lead (by decide),
    closes_guarded_end (by decide)]

/-- A text of the client's own has no marker. -/
theorem closes_own {text : Bytes} (h : chBracket ∉ text) : closes eom text = 0 := by
  rw [← List.append_nil text, closes_lead h, closes_nil]

/-- **The markers of a request are its arguments'.** -/
theorem Operation.closes_rpc (op : Operation) : closes eom op.rpc = (op.arguments.map (closes eom)).sum := by
  cases op with
  | lock target =>
    simp (disch := decide) only [Operation.rpc, lockRpc, closes_rpcText, List.append_assoc, closes_lead,
      closes_targetText, closes_own]
    simp [Operation.arguments]
  | unlock target =>
    simp (disch := decide) only [Operation.rpc, unlockRpc, closes_rpcText, List.append_assoc, closes_lead,
      closes_targetText, closes_own]
    simp [Operation.arguments]
  | commit => exact (closes_rpcText _).trans (closes_own (by decide))
  | validate source =>
    simp (disch := decide) only [Operation.rpc, validateRpc, closes_rpcText, List.append_assoc, closes_lead,
      closes_guarded_end]
    simp [Operation.arguments]
  | editConfig target config =>
    simp (disch := decide) only [Operation.rpc, editConfigRpc, closes_rpcText, List.append_assoc, closes_lead,
      closes_targetText, closes_guarded_end]
    simp [Operation.arguments]

theorem Request.closes_rpc (r : Request) : closes eom r.rpc = (r.arguments.map (closes eom)).sum := by
  cases r with
  | get filter =>
    simp (disch := decide) only [Request.rpc, getRpc, closes_rpcText, List.append_assoc, closes_lead, closes_filterText,
      closes_own]
    simp [Request.arguments]
  | getConfig source filter =>
    simp (disch := decide) only [Request.rpc, getConfigRpc, closes_rpcText, List.append_assoc, closes_lead,
      closes_sourceText, closes_filterText, closes_own]
    simp [Request.arguments]
  | copyConfig target source =>
    simp (disch := decide) only [Request.rpc, copyConfigRpc, closes_rpcText, List.append_assoc, closes_lead,
      closes_targetText, closes_sourceText, closes_own]
    simp [Request.arguments]
  | deleteConfig target =>
    simp (disch := decide) only [Request.rpc, deleteConfigRpc, closes_rpcText, List.append_assoc, closes_lead,
      closes_targetText, closes_own]
    simp [Request.arguments]
  | createSubscription stream filter =>
    have hend : closes eom (ascii "</create-subscription>") = 0 := closes_own (by decide)
    have htext : createSubscriptionRpc stream filter = rpcText
        (ascii "<create-subscription xmlns=\"urn:ietf:params:xml:ns:netconf:notification:1.0\">" ++ (ascii "<stream>" ++
          (stream ++ (ascii "</stream>" ++ (filterText filter ++ ascii "</create-subscription>"))))) := by
      simp only [createSubscriptionRpc, filterText, List.append_assoc]
    rw [Request.rpc, htext, closes_rpcText, closes_lead (by decide), closes_lead (by decide), closes_guarded (by decide),
      closes_filterText, hend]
    simp [Request.arguments]
  | operation op => exact op.closes_rpc

theorem Request.find_rpc_iff (r : Request) :
    find eom r.rpc = none ↔ ∀ a ∈ r.arguments, find eom a = none := by
  rw [← Search.closes_eq_zero_iff eom_ne_nil, r.closes_rpc, List.sum_eq_zero_iff_forall_eq_nat]
  simp only [List.forall_mem_map, Search.closes_eq_zero_iff eom_ne_nil]

/-! ## What the device reads -/

/-- **Every frame closes one segment more than its request.** -/
theorem closes_frames : ∀ rpcs : List Bytes,
    closes eom (rpcs.flatMap rpcWithEom) = (rpcs.map (fun rpc => closes eom rpc + 1)).sum
  | [] => closes_nil
  | rpc :: rpcs => by
    have hnl : chNewline ∉ eom := by decide
    have hself : closes eom eom = 1 := by decide
    have hframe : (rpc :: rpcs).flatMap rpcWithEom =
        rpc ++ chNewline :: (eom ++ chNewline :: rpcs.flatMap rpcWithEom) := by
      simp [rpcWithEom]
    rw [hframe, Search.closes_append_cons eom_ne_nil hnl, Search.closes_append_cons eom_ne_nil hnl, hself,
      closes_frames rpcs, List.map_cons, List.sum_cons, Nat.add_assoc]

theorem payloads_unmarked {frames : List Bytes} (h : ∀ frame ∈ frames, find eom frame = none) :
    ∀ payload ∈ payloads frames, find eom payload = none := by
  cases frames with
  | nil => exact fun payload hp => absurd hp List.not_mem_nil
  | cons first rest =>
    intro payload hp
    rcases List.mem_cons.1 hp with rfl | hp
    · exact Search.find_none_of_infix (h first List.mem_cons_self) (List.dropLast_prefix first).isInfix
    · obtain ⟨frame, hframe, rfl⟩ := List.mem_map.1 hp
      exact Search.find_none_of_infix (h frame (List.mem_cons_of_mem _ hframe))
        ((List.dropLast_prefix frame.tail).isInfix.trans (List.tail_suffix frame).isInfix)

/-- **The device reads the client's requests exactly when no argument has a marker in it.**  Whatever pieces the channel
takes them in, it reads a frame for each request and one for each marker in an argument; and the frames are the requests
if and only if there are no such markers. -/
theorem requests_read_iff (xml : XmlParser) (readTimeout : Int) (calls : List RpcCall) (asked : List Request)
    (hasked : calls.map (·.rpc) = asked.map Request.rpc) (hopen : ∀ call ∈ calls, call.handles.channel = true)
    (hflows : ∀ call ∈ calls, call.Flows) :
    (requests (wireOf xml readTimeout calls)).length =
      (asked.map (fun r => (r.arguments.map (closes eom)).sum + 1)).sum ∧
    (payloads (requests (wireOf xml readTimeout calls)) = asked.map Request.rpc ↔
      ∀ r ∈ asked, ∀ a ∈ r.arguments, find eom a = none) := by
  have hwire : wireOf xml readTimeout calls = (asked.map Request.rpc).flatMap rpcWithEom := by
    rw [← hasked, List.flatMap_map]
    exact List.flatMap_congr (fun call hcall => (hflows call hcall).written (hopen call hcall))
  rw [hwire]
  constructor
  · have hcount := closes_frames (asked.map Request.rpc)
    rw [List.map_map] at hcount
    rw [show (requests ((asked.map Request.rpc).flatMap rpcWithEom)).length =
      closes eom ((asked.map Request.rpc).flatMap rpcWithEom) from rfl, hcount]
    exact congrArg List.sum (List.map_congr_left (fun r _ => congrArg (· + 1) r.closes_rpc))
  · constructor
    · intro hread r hr
      have hclosed : ∀ frame ∈ requests ((asked.map Request.rpc).flatMap rpcWithEom), find eom frame = none :=
        fun frame hframe => Search.find_none_of_closed eom_ne_nil (Search.splitOn_closed eom_ne_nil _ frame hframe)
      refine r.find_rpc_iff.1 (payloads_unmarked hclosed r.rpc ?_)
      rw [hread]
      exact List.mem_map_of_mem hr
    · intro hclear
      refine (splitOn_frames (asked.map Request.rpc) (fun rpc hrpc => ?_)).1
      obtain ⟨r, hr, rfl⟩ := List.mem_map.1 hrpc
      exact r.find_rpc_iff.2 (hclear r hr)

/-- A `get_config` whose source ends in a part of the marker, and an `edit_config` that brings a whole one. -/
def askedTwice : List Request :=
  [.getConfig (ascii "running]]>]]") [], .operation (.editConfig (ascii "candidate") (ascii "<a>]]>]]></a>"))]

/-- The channel takes the first hundred bytes of a request, and then the rest. -/
def takenInTwo (r : Request) : RpcCall where
  handles := { socket := 5 }
  rpc := r.rpc
  script := { writes := [.accepted 100, .eagain none none, .accepted 500], tape := [] }

theorem askedTwice_read :
    (requests (wireOf (fun _ => none) 60 (askedTwice.map takenInTwo))).length = 3 ∧
    payloads (requests (wireOf (fun _ => none) 60 (askedTwice.map takenInTwo))) ≠ askedTwice.map Request.rpc := by
  have hflows : ∀ call ∈ askedTwice.map takenInTwo, call.Flows := by
    intro call hcall
    obtain ⟨r, hr, rfl⟩ := List.mem_map.1 hcall
    refine ⟨by simp [takenInTwo, ChannelWrite.Flows], ?_⟩
    have hshort : ∀ r ∈ askedTwice, (rpcWithEom r.rpc).length ≤ 600 := by decide +kernel
    exact hshort r hr
  have hopen : ∀ call ∈ askedTwice.map takenInTwo, call.handles.channel = true := by
    intro call hcall
    obtain ⟨r, _, rfl⟩ := List.mem_map.1 hcall
    rfl
  have hread := requests_read_iff (fun _ => none) 60 (askedTwice.map takenInTwo) askedTwice
    (by simp [takenInTwo]) hopen hflows
  exact ⟨hread.1.trans (by decide +kernel), fun he => absurd (hread.2.1 he) (by decide +kernel)⟩

end PyNetX
