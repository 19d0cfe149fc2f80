import ShareCli.Serve.HealthCheck

/-!
# What a probe says about an endpoint

`probe_http` looks at the first read only, takes any digits and letters for the version and one digit for
the status.
-/

namespace ShareCli.Serve

open Foundation HealthStatus Poller Option Text

def isDigitByte (b : UInt8) : Bool := 0x30 ≤ b && b ≤ 0x39

def httpOne : List UInt8 := httpSlash ++ [0x31, 0x2e]

/-- `HTTP/1.x 2yz`, with a space and a reason after it or nothing. -/
def isStatusLine2xx (status : List UInt8) : Bool :=
  status.take 7 = httpOne && status[7]?.any isDigitByte && status[8]? = some 0x20 &&
    status[9]? = some 0x32 && status[10]?.any isDigitByte && status[11]?.any isDigitByte &&
    (status[12]? = none || status[12]? = some 0x20)

/-- The line that the bytes begin with, without its end: a line feed, which a carriage return may precede. -/
def firstLine (sent : List UInt8) : Option (List UInt8) :=
  if 0x0a ∈ sent then
    let line := sent.takeWhile (· ≠ 0x0a)
    some (if line.getLast? = some 0x0d then line.dropLast else line)
  else none

def startsWith2xx (sent : List UInt8) : Bool := (firstLine sent).any isStatusLine2xx

variable {sent first : List UInt8}

theorem firstLine_isPrefix {line : List UInt8} (h : firstLine sent = some line) : line <+: sent := by
  obtain ⟨-, hl⟩ := ite_none_right_eq_some.mp h
  obtain rfl := some_inj.mp hl
  have ht : sent.takeWhile (· ≠ 0x0a) <+: sent := List.takeWhile_prefix _
  split
  · exact (List.dropLast_prefix _).trans ht
  · exact ht

theorem getElem?_of_isPrefix (h : first <+: sent) {i : Nat} (hi : i < first.length) :
    sent[i]? = first[i]? := by
  obtain ⟨rs, rfl⟩ := h
  exact List.getElem?_append_left hi

theorem read_of_startsWith2xx (h : startsWith2xx sent = true) (hf : first <+: sent) (hl : 12 ≤ first.length) :
    httpSlash <+: first ∧ first[9]? = some 0x32 ∧ first[10]?.any isDigitByte = true := by
  cases hln : firstLine sent with
  | none =>
    rw [startsWith2xx, hln] at h
    cases h
  | some st =>
    rw [startsWith2xx, hln, any_some] at h
    simp only [isStatusLine2xx, Bool.and_eq_true, decide_eq_true_eq] at h
    obtain ⟨⟨⟨⟨⟨⟨hv, -⟩, -⟩, ht⟩, htn⟩, he⟩, -⟩ := h
    have hp := firstLine_isPrefix hln
    have hlg : 11 < st.length := by
      cases hb : st[11]? with
      | none => simp [hb] at he
      | some b => exact (List.getElem?_eq_some_iff.mp hb).1
    have hs : ∀ i < 12, first[i]? = st[i]? := by
      intro i hi
      rw [← getElem?_of_isPrefix hf (by omega), getElem?_of_isPrefix hp (by omega)]
    have hsv : first.take 7 = st.take 7 := by
      refine List.ext_getElem? ?_
      intro i
      by_cases hi : i < 7
      · rw [List.getElem?_take_of_lt hi, List.getElem?_take_of_lt hi, hs i (by omega)]
      · rw [List.getElem?_take_eq_none (by omega), List.getElem?_take_eq_none (by omega)]
    refine ⟨?_, (hs 9 (by omega)).trans ht, ?_⟩
    · have hh : httpSlash <+: httpOne := List.prefix_append _ _
      rw [← hv, ← hsv] at hh
      exact hh.trans (List.take_prefix 7 first)
    · rw [hs 10 (by omega)]
      exact htn

structure Readable (buf : List UInt8) : Prop where
  utf8 : (decodeUtf8 buf).isSome = true
  http : httpSlash <+: buf
  length : 12 ≤ buf.length

theorem nonSuccess_ne (rs : List UInt8) : nonSuccess rs ≠ .ok ∧ nonSuccess rs ≠ .panicked := by
  constructor <;> intro h <;> cases h

def SliceOk (buf : List UInt8) : Prop := isCharBoundary buf 9 = true ∧ isCharBoundary buf 10 = true

theorem checkResponse_of_readable {buf : List UInt8} (h : Readable buf) :
    (SliceOk buf → checkResponse buf = if buf[9]? = some 0x32 then .ok else nonSuccess buf) ∧
      (¬ SliceOk buf → checkResponse buf = .panicked) := by
  have ht : (httpSlash.isPrefixOf buf && decide (12 ≤ buf.length)) = true := by
    simp [h.http, h.length]
  have hd : (buf.drop 9).take 1 = [0x32] ↔ buf[9]? = some 0x32 := by
    rw [List.take_one, List.head?_drop]
    cases buf[9]? <;> simp
  rw [checkResponse, if_pos h.utf8, if_pos ht]
  constructor
  · intro hs
    rw [strSlice, if_pos ⟨by decide, hs⟩]
    simp only [Nat.reduceSub, hd]
  · intro hs
    rw [strSlice, if_neg (by rintro ⟨-, hok⟩; exact hs hok)]

theorem checkResponse_of_not_readable {buf : List UInt8} (h : ¬ Readable buf) :
    checkResponse buf ≠ .ok ∧ checkResponse buf ≠ .panicked := by
  unfold checkResponse
  by_cases hu8 : (decodeUtf8 buf).isSome = true
  · have ht : ¬ (httpSlash.isPrefixOf buf && decide (12 ≤ buf.length)) = true := by
      simp only [Bool.and_eq_true, List.isPrefixOf_iff_prefix, decide_eq_true_eq]
      rintro ⟨hh, hl⟩
      exact h ⟨hu8, hh, hl⟩
    rw [if_pos hu8, if_neg ht]
    exact nonSuccess_ne buf
  · rw [if_neg hu8]
    exact nonSuccess_ne []

theorem sliceOk_of_startsWith2xx (h : startsWith2xx sent = true) (hf : first <+: sent)
    (hl : 12 ≤ first.length) : SliceOk first := by
  obtain ⟨-, ht, hd⟩ := read_of_startsWith2xx h hf hl
  constructor
  · rw [isCharBoundary, ht]
    rfl
  · cases hb : first[10]? with
    | none => simp [hb] at hd
    | some b =>
      rw [hb, any_some, isDigitByte, Bool.and_eq_true] at hd
      have ha : b < 0x80 := UInt8.lt_of_le_of_lt (of_decide_eq_true hd.2) (by decide)
      simp [isCharBoundary, hb, ha]

/-- `first` is what the first read gives of what the server sends. -/
def ReadTells (sent first : List UInt8) : Prop :=
  if startsWith2xx sent then 12 ≤ first.length ∧ (decodeUtf8 first).isSome = true
  else ¬ (Readable first ∧ (first[9]? = some 0x32 ∨ ¬ SliceOk first))

theorem checkResponse_right_iff (hf : first <+: sent) :
    (checkResponse first ≠ .panicked ∧ (checkResponse first = .ok ↔ startsWith2xx sent = true)) ↔
      ReadTells sent first := by
  unfold ReadTells
  by_cases hr : Readable first
  · obtain ⟨hv, hp⟩ := checkResponse_of_readable hr
    by_cases hs : SliceOk first
    · rw [hv hs]
      by_cases ht : first[9]? = some 0x32
      · simp [ht, hr, hr.length, hr.utf8]
      · have hn : startsWith2xx sent = false := by
          refine Bool.eq_false_iff.mpr ?_
          intro h
          exact ht (read_of_startsWith2xx h hf hr.length).2.1
        simp [ht, hn, hs, nonSuccess_ne]
    · have hn : startsWith2xx sent = false := by
        refine Bool.eq_false_iff.mpr ?_
        intro h
        exact hs (sliceOk_of_startsWith2xx h hf hr.length)
      simp [hp hs, hn, hs, hr]
  · obtain ⟨hok, hp⟩ := checkResponse_of_not_readable hr
    by_cases hsn : startsWith2xx sent = true
    · have hsh : ¬ (12 ≤ first.length ∧ (decodeUtf8 first).isSome = true) := by
        rintro ⟨hl, hu8⟩
        exact hr ⟨hu8, (read_of_startsWith2xx hsn hf hl).1, hl⟩
      simp [hsn, hok, hsh]
    · simp [hsn, hok, hp, hr]

def Supported (url : List Char) : Prop := "http://".toList <+: url ∨ "https://".toList <+: url

theorem probeHttp_of_connected {url : List Char} (hu : Supported url) {exchange : Exchange}
    (hc : exchange.connect = .done ()) (hw : exchange.write = .done ()) :
    (∃ buf, exchange.read 32 = .done buf ∧ probeHttp url exchange = checkResponse buf) ∨
      (exchange.segments = [] ∧ ∃ m, probeHttp url exchange = .err m) := by
  have hs : ∃ rs, (stripPrefix? "http://".toList url).or (stripPrefix? "https://".toList url) = some rs := by
    rcases hu with hu | hu
    · exact ⟨_, by rw [stripPrefix?, if_pos (List.isPrefixOf_iff_prefix.mpr hu), some_or]⟩
    · cases hh : stripPrefix? "http://".toList url with
      | some rs => exact ⟨rs, rfl⟩
      | none => exact ⟨_, by rw [none_or, stripPrefix?, if_pos (List.isPrefixOf_iff_prefix.mpr hu)]⟩
  obtain ⟨rs, hs⟩ := hs
  unfold probeHttp
  simp only [hs, hc, hw]
  cases hr : exchange.read 32 with
  | done buf => exact .inl ⟨buf, rfl, rfl⟩
  | failed e | timedOut =>
    refine .inr ⟨?_, _, rfl⟩
    cases hsg : exchange.segments with
    | nil => rfl
    | cons segment s => simp [Exchange.read, hsg] at hr

/-- For every way in which what a server sends is split, the verdict is right if and only if the first read tells. -/
theorem probe_verdict_iff (url : List Char) (hurl : Supported url) (exchange : Exchange)
    (hconnect : exchange.connect = .done ()) (hwrite : exchange.write = .done ()) :
    (probeHttp url exchange ≠ .panicked ∧
      (probeHttp url exchange = .ok ↔ startsWith2xx exchange.segments.flatten = true)) ↔
    ReadTells exchange.segments.flatten ((exchange.segments.head?.getD []).take 32) := by
  rcases probeHttp_of_connected hurl hconnect hwrite with ⟨buf, hr, hp⟩ | ⟨he, message, hp⟩
  · rw [hp]
    cases hsg : exchange.segments with
    | nil =>
      have hb : buf = [] := by
        rw [Exchange.read, hsg] at hr
        cases ha : exchange.afterwards with
        | done v => simpa [ha] using hr.symm
        | failed e => simp [ha] at hr
        | timedOut => simp [ha] at hr
      rw [hb]
      exact checkResponse_right_iff (List.prefix_refl _)
    | cons segment segments =>
      have hb : segment.take 32 = buf := by
        rw [Exchange.read, hsg] at hr
        exact Attempt.done.inj hr
      rw [← hb]
      exact checkResponse_right_iff ((List.take_prefix 32 segment).trans (List.prefix_append _ _))
  · rw [hp, he]
    have hn : ReadTells [] [] := by
      rw [ReadTells, if_neg (by decide)]
      rintro ⟨hrd, -⟩
      exact absurd hrd.length (by decide)
    have hsn : ¬ startsWith2xx [] = true := by decide
    constructor
    · intro _
      exact hn
    · intro _
      simp [hsn]

def answered (segments : List (List UInt8)) : Exchange :=
  { connect := .done (), write := .done (), segments, afterwards := .done () }

theorem probe_verdict_in_one_read :
    probeHttp "http://h/".toList (answered [encodeUtf8 "HTTP/1.1 200 OK\r\n\r\n".toList])
      ≠ .panicked ∧
    (probeHttp "http://h/".toList (answered [encodeUtf8 "HTTP/1.1 200 OK\r\n\r\n".toList]) = .ok ↔
      startsWith2xx (answered [encodeUtf8 "HTTP/1.1 200 OK\r\n\r\n".toList]).segments.flatten
        = true) := by
  refine (probe_verdict_iff _ (.inl (by decide)) _ rfl rfl).mpr ?_
  rw [ReadTells, if_pos (by decide +kernel)]
  exact ⟨by decide +kernel, by decide +kernel⟩

/-- Byte 9 of the answer is in the middle of a character. Or the answer comes in two parts. -/
theorem probe_panics_and_misses :
    probeHttp "http://h/".toList (answered [encodeUtf8 "HTTP/1.1é200 OK\r\n".toList]) = .panicked ∧
    startsWith2xx (encodeUtf8 "HTTP/1.1 ".toList ++ encodeUtf8 "200 OK\r\n".toList) = true ∧
    probeHttp "http://h/".toList
      (answered [encodeUtf8 "HTTP/1.1 ".toList, encodeUtf8 "200 OK\r\n".toList]) ≠ .ok := by
  refine ⟨?_, ?_, ?_⟩ <;> decide +kernel

/-- The poller after some probes, the last one first. -/
def Poller.after (name : String) (cfg : HealthCheckConfig) (outs : List (Option String)) : Poller :=
  outs.foldr (fun outcome p => p.finish name cfg outcome) {}

/-- The failed probes since the last one that succeeded. -/
def failuresInARow (outs : List (Option String)) : Nat := (outs.takeWhile isSome).length

/-- The maximal runs of failed probes, with empty runs between two that succeeded. -/
def failureRuns (outs : List (Option String)) : List (List (Option String)) := outs.splitOnP isNone

def HealthCheckConfig.limit (cfg : HealthCheckConfig) : Nat := max 1 cfg.failureThreshold.toNat

variable {name : String} {cfg : HealthCheckConfig} {outs : List (Option String)} {p : Poller}

theorem failureRuns_eq_cons (outs : List (Option String)) :
    ∃ e, failureRuns outs = outs.takeWhile isSome :: e := by
  induction outs with
  | nil => exact ⟨[], rfl⟩
  | cons o outs ih =>
    obtain ⟨e, hr⟩ := ih
    rw [failureRuns] at hr
    rw [failureRuns, List.splitOnP_cons_eq_if_modifyHead, hr]
    cases o <;> simp

structure Reports (cfg : HealthCheckConfig) (outs : List (Option String)) (p : Poller) : Prop where
  counter : p.status.consecutiveFailures.toNat = failuresInARow outs % 2 ^ 32
  healthy : p.status.healthy = false ↔ cfg.limit ≤ failuresInARow outs
  notified : p.notifications.length = (failureRuns outs).countP (cfg.limit ≤ ·.length)

theorem limit_pos : 0 < cfg.limit := Nat.lt_of_lt_of_le Nat.one_pos (Nat.le_max_left 1 _)

theorem Reports.success (h : Reports cfg outs p) (name : String) :
    Reports cfg (none :: outs) (p.finish name cfg none) := by
  have hn : failuresInARow (none :: outs) = 0 := rfl
  have hr : failureRuns (none :: outs) = [] :: failureRuns outs := by
    rw [failureRuns, List.splitOnP_cons_eq_if_modifyHead]
    rfl
  have hl : ¬ cfg.limit ≤ 0 := Nat.not_le.mpr limit_pos
  refine ⟨?_, ?_, ?_⟩
  · simp [finish, record, hn]
  · simp [finish, record, hn, hl]
  · simp [finish, record, hr, h.notified, hl]

theorem countP_failureRuns (error : String) :
    (failureRuns (some error :: outs)).countP (cfg.limit ≤ ·.length) =
      (failureRuns outs).countP (cfg.limit ≤ ·.length) +
        if failuresInARow outs + 1 = cfg.limit then 1 else 0 := by
  obtain ⟨e, hr⟩ := failureRuns_eq_cons outs
  have hm : failureRuns (some error :: outs) = (some error :: outs.takeWhile isSome) :: e := by
    rw [failureRuns] at hr
    rw [failureRuns, List.splitOnP_cons_eq_if_modifyHead, hr]
    rfl
  have hl : (outs.takeWhile isSome).length = failuresInARow outs := rfl
  rw [hr, hm, List.countP_cons, List.countP_cons, List.length_cons, hl]
  simp only [decide_eq_true_eq]
  split_ifs <;> omega

theorem Reports.failure (h : Reports cfg outs p) (error : String) :
    Reports cfg (some error :: outs) (p.finish name cfg (some error)) := by
  have hm : failuresInARow (some error :: outs) = failuresInARow outs + 1 := by
    simp [failuresInARow]
  have ht := cfg.failureThreshold.toNat_lt
  have hl : cfg.limit = max 1 cfg.failureThreshold.toNat := rfl
  have hnext : (p.status.consecutiveFailures + 1).toNat = (failuresInARow outs + 1) % 2 ^ 32 := by
    rw [UInt32.toNat_add, h.counter]
    simp
  have hu := h.healthy
  by_cases hr : cfg.failureThreshold ≤ p.status.consecutiveFailures + 1
  · have hle : cfg.failureThreshold.toNat ≤ (failuresInARow outs + 1) % 2 ^ 32 :=
      hnext ▸ UInt32.le_iff_toNat_le.mp hr
    refine ⟨?_, ?_, ?_⟩
    · simp [finish, record, hr, hm, hnext]
    · simp only [finish, record, hr, if_true, hm, true_iff]
      omega
    · have hf : p.status.healthy = true ↔ failuresInARow outs + 1 = cfg.limit := by
        rw [← Bool.not_eq_false, hu]
        omega
      rw [countP_failureRuns, ← h.notified]
      simp only [finish, record, hr, if_true, hf]
      split_ifs <;> simp
  · have hlt : (failuresInARow outs + 1) % 2 ^ 32 < cfg.failureThreshold.toNat := by
      rw [← hnext]
      exact Nat.not_le.mp fun hle => hr (UInt32.le_iff_toNat_le.mpr hle)
    have hn : failuresInARow outs + 1 ≠ cfg.limit := by omega
    refine ⟨?_, ?_, ?_⟩
    · simp [finish, record, hr, hm, hnext]
    · simp only [finish, record, hr, if_false, hm, hu]
      omega
    · rw [countP_failureRuns, if_neg hn, ← h.notified]
      simp [finish, record, hr]

theorem reports_after (name : String) (cfg : HealthCheckConfig) (outs : List (Option String)) :
    Reports cfg outs (after name cfg outs) := by
  induction outs with
  | nil =>
    have hl : ¬ cfg.limit ≤ 0 := Nat.not_le.mpr limit_pos
    exact ⟨rfl, by simp [after, failuresInARow, hl], by simp [after, failureRuns, hl]⟩
  | cons o outs ih =>
    cases o with
    | none => exact ih.success name
    | some error => exact ih.failure error

/-- A process is unhealthy exactly if as many of its last probes failed as the threshold says, and there is one
notification for each run of failures that became so long. -/
theorem health_follows_runs (name : String) (cfg : HealthCheckConfig) (outcomes : List (Option String)) :
    ((Poller.after name cfg outcomes).status.healthy = false ↔
      max 1 cfg.failureThreshold.toNat ≤ failuresInARow outcomes) ∧
    (Poller.after name cfg outcomes).notifications.length =
      (failureRuns outcomes).countP (max 1 cfg.failureThreshold.toNat ≤ ·.length) :=
  ⟨(reports_after name cfg outcomes).healthy, (reports_after name cfg outcomes).notified⟩

/-- The outcome of a round of probes, of which there is none without an endpoint. -/
def probed (cfg : HealthCheckConfig) (world : List Char → Exchange) : List (Option String) :=
  if cfg.endpoints.isEmpty then []
  else
    match probeEndpoints (max cfg.timeoutSecs 1) world cfg.endpoints with
    | .panicked => []
    | .ok => [none]
    | .err message => [some message]

theorem probeAll_after {outs : List (Option String)} {world : List Char → Exchange}
    (h : (after name cfg outs).probeAll name cfg world = some p) :
    p = after name cfg (probed cfg world ++ outs) := by
  unfold probeAll at h
  unfold probed
  by_cases he : cfg.endpoints.isEmpty = true
  · rw [if_pos he] at h ⊢
    exact (some.inj h).symm
  · rw [if_neg he] at h ⊢
    revert h
    cases probeEndpoints (max cfg.timeoutSecs 1) world cfg.endpoints with
    | panicked =>
      intro h
      cases h
    | ok | err message =>
      intro h
      exact (some.inj h).symm

/-- A poller reports what the outcomes of its probes, the last one first, make of it. -/
theorem eq_after_of_run {outs : List (Option String)} {worlds : List (List Char → Exchange)}
    (h : (pollMachine name cfg).run (after name cfg outs) worlds = some p) :
    p = after name cfg (worlds.reverse.flatMap (probed cfg) ++ outs) := by
  induction worlds generalizing outs with
  | nil => exact (some.inj h).symm
  | cons world worlds ih =>
    obtain ⟨next, hnext, hrest⟩ := bind_eq_some_iff.mp h
    obtain rfl := probeAll_after hnext
    rw [ih hrest]
    simp

end ShareCli.Serve
