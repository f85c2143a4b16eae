import HdfsBrowser.Proofs.Gateway.Resolution

/-!
# What a final response comes to

A response that can be read is a value exactly when it succeeds and holds what
its operation asks for.  A body that is an object with an object under
`RemoteException` refuses the call, whatever else it holds and whatever the
status, except that the bytes of a file are no envelope.  Every failure has a
message to show: the gateway's own, or one that only the status, the address,
the reason and the missing key decide.  A response that cannot be read raises
the fault of reading it, and then it comes to nothing.
-/

namespace HdfsBrowser

/-! ## Messages -/

theorem statusMessage_ne_empty (status : Int) (address reason : String) :
    statusMessage status address reason ≠ "" := by
  unfold statusMessage
  split
  · simp
  · split
    · simp
    · split
      · simp
      · simp

theorem truthy_str {s : String} (h : s ≠ "") : (Value.str s).truthy = true := by
  simpa [Value.truthy] using h

def missingMessage (address key : String) : String :=
  "Failed to retrieve data from " ++ address ++ ": response has no " ++ key

theorem missingMessage_ne_empty (address key : String) : missingMessage address key ≠ "" := by
  unfold missingMessage
  simp

def ownMessage? (body : List (String × Value)) : Option Value :=
  (Value.lookup? "message" body).filter Value.truthy

theorem classify_of_refusal {envelope : Value} {body : List (String × Value)}
    (h : refusal? envelope = some body) (status : Int) (address reason : String) :
    classify status envelope address reason =
      (ownMessage? body).getD (.str (statusMessage status address reason)) := by
  unfold classify ownMessage?
  rw [h]
  dsimp only [Option.bind_some]
  cases Value.lookup? "message" body with
  | none => rfl
  | some message => cases htruthy : message.truthy <;> simp [htruthy, Option.filter]

variable {r : Response} {envelope : Value} {op : Operation}

theorem ofAnswer_of_refusal {body : List (String × Value)} (h : refusal? envelope = some body)
    (status : Int) (address reason : String) :
    Failure.ofAnswer status envelope address reason =
      .refused ((ownMessage? body).getD (.str (statusMessage status address reason))) status
        (Value.member body "exception" (.str ""))
        (Value.member body "javaClassName" (.str "")) := by
  simp only [Failure.ofAnswer, h, classify_of_refusal h]

theorem ofAnswer_of_no_refusal (h : refusal? envelope = none) (status : Int)
    (address reason : String) :
    Failure.ofAnswer status envelope address reason =
      .transport (statusMessage status address reason) (some status) := by
  simp only [Failure.ofAnswer, h]

theorem ofEnvelope_of_failed (h : r.isSuccess = false) (op : Operation) (address : String)
    (envelope : Value) : Outcome.ofEnvelope op address r envelope =
      .error (.ofAnswer r.status envelope address r.reason) := by
  simp [Outcome.ofEnvelope, h]

theorem ofEnvelope_of_refusal (h : r.isSuccess = true) {body : List (String × Value)}
    (hrefusal : refusal? envelope = some body) (op : Operation) (address : String) :
    Outcome.ofEnvelope op address r envelope = .error (.ofAnswer r.status envelope address "") := by
  simp [Outcome.ofEnvelope, h, hrefusal]

theorem ofEnvelope_of_no_refusal (h : r.isSuccess = true) (hrefusal : refusal? envelope = none)
    (op : Operation) (address : String) :
    Outcome.ofEnvelope op address r envelope = payloadOf op address r.status envelope := by
  simp [Outcome.ofEnvelope, h, hrefusal]

/-! ## Failures -/

section

variable [Client]

/-- A failure tells what a response says: whether the gateway refused, and why. -/
structure Failure.Tells (why : Failure) (op : Operation) (address : String) (r : Response) :
    Prop where
  status : why.status? = some r.status
  refused : ∀ body, r.Refuses body → ∃ message,
    why = .refused message r.status (Value.member body "exception" (.str ""))
      (Value.member body "javaClassName" (.str ""))
  transport : (∀ body, ¬ r.Refuses body) → ∃ text, why = .transport text (some r.status)
  verbatim : ∀ body message, r.Refuses body → ownMessage? body = some message →
    why.message = message
  plain : (r.isSuccess = false ∨ ∃ body, r.Refuses body) →
    (∀ body, r.Refuses body → ownMessage? body = none) →
    why.message =
      .str (statusMessage r.status address (if r.isSuccess then "" else r.reason))
  missing : r.isSuccess = true → (∀ body, ¬ r.Refuses body) →
    ∃ key, op.payloadKey? = some key ∧ (∀ v, ¬ r.Holds key v) ∧
      why.message = .str (missingMessage address key)
  nonempty : why.message.truthy = true

theorem tells_of_refuses (hread : r.envelope = .ok envelope) {body : List (String × Value)}
    (h : r.Refuses body) (op : Operation) (address : String) :
    (Failure.ofAnswer r.status envelope address
      (if r.isSuccess then "" else r.reason)).Tells op address r := by
  have hrefusal := (Response.refusal?_eq_some_iff hread).mpr h
  have hunique (body' : List (String × Value)) (h' : r.Refuses body') : body' = body :=
    Option.some.inj (((Response.refusal?_eq_some_iff hread).mpr h').symm.trans hrefusal)
  rw [ofAnswer_of_refusal hrefusal]
  constructor
  · rfl
  · intro body' h'
    rw [hunique body' h']
    exact ⟨_, rfl⟩
  · intro hnone
    exact absurd h (hnone body)
  · intro body' message h' hmessage
    rw [hunique body' h'] at hmessage
    simp [Failure.message, hmessage]
  · intro _ hsilent
    simp [Failure.message, hsilent body h]
  · intro _ hnone
    exact absurd h (hnone body)
  · cases hmessage : ownMessage? body with
    | none => exact truthy_str (statusMessage_ne_empty _ _ _)
    | some message => exact (Option.filter_eq_some_iff.mp hmessage).2

theorem tells_of_status (hread : r.envelope = .ok envelope) (h : ∀ body, ¬ r.Refuses body)
    (hstatus : r.isSuccess = false) (op : Operation) (address : String) :
    (Failure.ofAnswer r.status envelope address r.reason).Tells op address r := by
  rw [ofAnswer_of_no_refusal ((Response.refusal?_eq_none_iff hread).mpr h)]
  constructor
  · rfl
  · intro body hbody
    exact absurd hbody (h body)
  · intro _
    exact ⟨_, rfl⟩
  · intro body _ hbody
    exact absurd hbody (h body)
  · intro _ _
    simp [Failure.message, hstatus]
  · intro hsuccess
    simp [hstatus] at hsuccess
  · exact truthy_str (statusMessage_ne_empty _ _ _)

theorem tells_of_missing (h : ∀ body, ¬ r.Refuses body)
    (hstatus : r.isSuccess = true) {key : String}
    (hkey : op.payloadKey? = some key) (hmissing : ∀ v, ¬ r.Holds key v) (address : String) :
    (Failure.transport (missingMessage address key) (some r.status)).Tells op address r := by
  constructor
  · rfl
  · intro body hbody
    exact absurd hbody (h body)
  · intro _
    exact ⟨_, rfl⟩
  · intro body _ hbody
    exact absurd hbody (h body)
  · rintro (hfailed | ⟨body, hbody⟩)
    · simp [hstatus] at hfailed
    · exact absurd hbody (h body)
  · intro _ _
    exact ⟨key, hkey, hmissing, rfl⟩
  · exact truthy_str (missingMessage_ne_empty _ _)

/-! ## Outcomes -/

theorem payloadOf_eq_ok_iff (hread : r.envelope = .ok envelope) (address : String) (v : Value) :
    payloadOf op address r.status envelope = .ok v ↔
      op.payloadKey? = none ∧ v = .null ∨ ∃ key, op.payloadKey? = some key ∧ r.Holds key v := by
  unfold payloadOf
  cases op.payloadKey? with
  | none => simp [eq_comm]
  | some key =>
      cases hvalue : envelope.member? key <;> simp [Response.holds_iff hread, hvalue]

theorem payloadOf_eq_error (hread : r.envelope = .ok envelope) {address : String} {why : Failure}
    (h : payloadOf op address r.status envelope = .error why) :
    ∃ key, op.payloadKey? = some key ∧ (∀ v, ¬ r.Holds key v) ∧
      why = .transport (missingMessage address key) (some r.status) := by
  unfold payloadOf at h
  cases hkey : op.payloadKey? with
  | none => simp [hkey] at h
  | some key =>
      cases hvalue : envelope.member? key with
      | some v => simp [hkey, hvalue] at h
      | none =>
          refine ⟨key, rfl, fun v hv => ?_, ?_⟩
          · rw [Response.holds_iff hread, hvalue] at hv
            cases hv
          · simp only [hkey, hvalue] at h
            cases h
            rfl

/-- The response gives an operation a value: the text of the file, or what the document holds for
the operation. -/
def Response.Gives (r : Response) (op : Operation) (v : Value) : Prop :=
  (200 ≤ r.status ∧ r.status ≤ 299) ∧
    (op = .openFile ∧ (∃ text, Client.text r = .ok text ∧ v = .str text) ∨
      op ≠ .openFile ∧ (∃ d, Client.document? r = .ok d) ∧ (∀ body, ¬ r.Refuses body) ∧
        (op.payloadKey? = none ∧ v = .null ∨ ∃ key, op.payloadKey? = some key ∧ r.Holds key v))

theorem exists_document_of_envelope (hread : r.envelope = .ok envelope) :
    ∃ d, Client.document? r = .ok d := by
  cases hdocument : Client.document? r with
  | ok d => exact ⟨d, rfl⟩
  | error f => simp [Response.envelope_eq_error_iff.mpr hdocument] at hread

theorem ofEnvelope_gives_or_tells (hread : r.envelope = .ok envelope)
    (hop : r.isSuccess = false ∨ op ≠ .openFile) (address : String) :
    (∀ v, Outcome.ofEnvelope op address r envelope = .ok v ↔ r.Gives op v) ∧
      ∀ why, Outcome.ofEnvelope op address r envelope = .error why → why.Tells op address r := by
  unfold Response.Gives
  rw [← Response.isSuccess_iff]
  cases hsuccess : r.isSuccess with
  | false =>
      rw [ofEnvelope_of_failed hsuccess]
      refine ⟨by simp, ?_⟩
      rintro why ⟨⟩
      by_cases hrefuses : ∃ body, r.Refuses body
      · obtain ⟨body, hbody⟩ := hrefuses
        simpa [hsuccess] using tells_of_refuses hread hbody op address
      · exact tells_of_status hread (not_exists.mp hrefuses) hsuccess op address
  | true =>
      have hother : op ≠ .openFile := by simpa [hsuccess] using hop
      by_cases hrefuses : ∃ body, r.Refuses body
      · obtain ⟨body, hbody⟩ := hrefuses
        rw [ofEnvelope_of_refusal hsuccess ((Response.refusal?_eq_some_iff hread).mpr hbody)]
        constructor
        · intro v
          simp only [hother]
          constructor
          · intro h
            cases h
          · rintro ⟨-, ⟨⟨⟩, -⟩ | ⟨-, -, hnone, -⟩⟩
            exact absurd hbody (hnone body)
        · rintro why ⟨⟩
          simpa [hsuccess] using tells_of_refuses hread hbody op address
      · have hnone := not_exists.mp hrefuses
        rw [ofEnvelope_of_no_refusal hsuccess ((Response.refusal?_eq_none_iff hread).mpr hnone)]
        constructor
        · intro v
          rw [payloadOf_eq_ok_iff hread]
          simp [hother, hnone, exists_document_of_envelope hread]
        · intro why hwhy
          obtain ⟨key, hkey, hmissing, rfl⟩ := payloadOf_eq_error hread hwhy
          exact tells_of_missing hnone hsuccess hkey hmissing address

theorem ofResponse_gives_or_tells (op : Operation) (address : String) (r : Response) :
    (∀ v, Outcome.ofResponse op address r = .ok (.ok v) ↔ r.Gives op v) ∧
      ∀ why, Outcome.ofResponse op address r = .ok (.error why) → why.Tells op address r := by
  by_cases hfile : r.isSuccess = true ∧ op = .openFile
  · obtain ⟨hsuccess, rfl⟩ := hfile
    rw [Outcome.ofResponse_openFile hsuccess]
    unfold Response.Gives
    rw [← Response.isSuccess_iff, hsuccess]
    cases Client.text r with
    | ok text => exact ⟨by simp [Except.map, eq_comm], by simp [Except.map]⟩
    | error f => exact ⟨by simp [Except.map], by simp [Except.map]⟩
  · have hop : r.isSuccess = false ∨ op ≠ .openFile := by
      simpa [or_iff_not_imp_left] using hfile
    rw [Outcome.ofResponse_of_document hop]
    cases hread : r.envelope with
    | ok envelope =>
        simpa [Except.map] using ofEnvelope_gives_or_tells hread hop address
    | error f =>
        have hdocument := Response.envelope_eq_error_iff.mp hread
        refine ⟨fun v => iff_of_false (by simp [Except.map]) ?_, by simp [Except.map]⟩
        rintro ⟨hstatus, ⟨rfl, -⟩ | ⟨-, ⟨d, hd⟩, -⟩⟩
        · exact hfile ⟨Response.isSuccess_iff.mpr hstatus, rfl⟩
        · simp [hdocument] at hd

/-- A call comes to what its final response says, whatever redirections came before it.  It raises
the fault of reading the body, if there is one.  Otherwise it returns an outcome, which is a value
exactly when the response gives the operation that value, and else a failure that tells what the
response says. -/
theorem outcome_of_final_response (op : Operation) (address : String) (r : Response) :
    ((∀ f, Outcome.ofResponse op address r = .error f ↔ r.IsUnreadable op f) ∧
      (∀ v, Outcome.ofResponse op address r = .ok (.ok v) ↔ r.Gives op v) ∧
      ∀ why, Outcome.ofResponse op address r = .ok (.error why) → why.Tells op address r) ∧
    ∀ (settings : Settings) (c : Call) (hops : List Reply) (e : Exchange) (rest : List Reply),
      c.operation = op → c.address settings = .ok address →
      c.resolution settings hops = .pending e → e.request.address.scheme ≠ "" →
      Exchange.location? r = none →
      c.resolution settings (hops ++ .response r :: rest) =
        .ofRead (Outcome.ofResponse op address r) := by
  refine ⟨⟨fun f => Outcome.ofResponse_eq_error_iff, ofResponse_gives_or_tells op address r⟩, ?_⟩
  rintro settings c hops e rest rfl haddress hpending hscheme hfinal
  exact (Call.resolution_of_end haddress hpending _ rest).2 r
    (Exchange.receive_of_final hscheme hfinal)

end

attribute [local instance] Client.plain

def silentRefusal : Response where
  status := 200
  reason := "OK"
  headers := []
  body := Utf8.encode "\x7b\"FileStatuses\":1,\"RemoteException\":\x7b\"message\":\"\"\x7d\x7d"

theorem outcome_of_silent_refusal :
    let settings := { Settings.default with gateway := "http://nn:9870" }
    let c := Call.listing "/a"
    let address := "http://nn:9870/webhdfs/v1/a?op=LISTSTATUS"
    let why : Failure := .refused (.str ("Failed to retrieve data from " ++ address ++ ": "))
      200 (.str "") (.str "")
    c.address settings = .ok address ∧
      c.resolution settings [.response silentRefusal] = .returned (.error why) ∧
      why.Tells .listStatus address silentRefusal ∧
      ¬ silentRefusal.Gives .listStatus (.int 1) := by
  intro settings c address why
  have haddress : c.address settings = .ok address := by decide
  let u : Url :=
    ⟨"http", "", "nn", some 9870, "/webhdfs/v1/a", some "op=LISTSTATUS", none⟩
  have hpending : c.resolution settings [] = .pending ⟨⟨.get, u, []⟩, 0⟩ := by decide
  have houtcome : Outcome.ofResponse .listStatus address silentRefusal = .ok (.error why) := by
    decide +kernel
  obtain ⟨⟨-, hgives, htells⟩, hcalls⟩ :=
    outcome_of_final_response .listStatus address silentRefusal
  have hreturned := hcalls settings c [] _ [] rfl haddress hpending (by decide) (by decide)
  rw [houtcome] at hreturned
  refine ⟨haddress, hreturned, htells why houtcome, ?_⟩
  rw [← hgives, houtcome]
  simp

/-- A file in UTF-16 without a mark for its byte order. -/
def unmarkedFile : Response where
  status := 200
  reason := "OK"
  headers := [("Content-Type", "text/plain; charset=utf-16")]
  body := [0x61, 0x00]

theorem unmarked_file_raises :
    let settings := { Settings.default with gateway := "http://nn:9870" }
    (200 ≤ unmarkedFile.status ∧ unmarkedFile.status ≤ 299) ∧
      (Call.reading "/f" none).resolution settings [.response unmarkedFile] =
        .raised (.client "UnicodeError" "UTF-16 stream does not start with BOM") := by
  decide +kernel

end HdfsBrowser
