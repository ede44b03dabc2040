import ObserverRelay.Proofs.Json.ReadBack
import ObserverRelay.Proofs.Relay.NodeStatus
/-!
# Texts of status reports

The proxy's report is read from a body by way of the value that the body is, so that a body that is
no JSON is told apart from one of another form. To read it from the body at once would give the same
report: what is read at once is read by way of the value, too, and the other way round if neither
`data` nor the metrics in it are repeated, since of repeated members a value holds the last only.

A node's report repeats no name, so its text is read back as the report, if its numbers are.

## Main statements

* `read_agrees_parse`: the two ways of reading a body, and the errors.
* `parse_toValue`: a report is read back from its text.
* `forNode_read_back`: the same for the node's report that is made of a body.
-/
namespace ObserverRelay.Relay

open Json

namespace StatusReport

variable {outer inner key : String} {depth : Nat} {body : Bytes} {r : StatusReport}
  {ms : List (String × Document String)}

/-- Neither `data` nor the member of the name in it is repeated. -/
def Once (key : String) (ms : List (String × Document String)) : Prop :=
  (ms.map Prod.fst).count "data" ≤ 1 ∧
    ∀ ns, ("data", Document.object ns) ∈ ms → (ns.map Prod.fst).count key ≤ 1

/-- A report is read from a text in which it is not repeated as from its value. -/
theorem agrees_decoder (once : Once key ms) (within : (Document.object ms).Within depth) :
    (decoder outer inner key).Agrees depth (.object ms) := by
  cases within with
  | object within =>
    refine (Decoder.agrees_withRest outer once.1 (fun m mem own => ?_) within).map _
    obtain ⟨name, doc⟩ := m
    have shallow := within _ mem
    cases doc with
    | object ns =>
      cases shallow with
      | object shallow =>
        have once' := once.2 ns (by rwa [← own])
        exact Decoder.agrees_withRest inner once'
          (fun n mem' _ => Decoder.agrees_members (shallow n mem')) shallow
    | null | number | string | array => exact Decoder.agrees_withRest_of_kind_ne nofun
    | bool b => exact Decoder.agrees_withRest_of_kind_ne (by cases b <;> nofun)

theorem readsAlike_decoder (outer inner key : String) : (decoder outer inner key).ReadsAlike :=
  (Decoder.readsAlike_withRest outer "data"
    (Decoder.readsAlike_withRest inner key Decoder.readsAlike_members)).map _

theorem read_of_parse (url : String) (parsed : proxyDecoder.parse body = .ok r) :
    read url body = .ok r := by
  obtain ⟨v, value, decoded⟩ := (readsAlike_decoder _ _ _).parse parsed
  have decoded' : proxyDecoder.fromValue v = .ok r := decoded
  simp only [read, value, decoded']

theorem parse_of_read {url : String} (spelled : Spells TextAt body (.object ms))
    (once : Once "status" ms) (taken : read url body = .ok r) : proxyDecoder.parse body = .ok r := by
  rw [read] at taken
  split at taken
  next => cases taken
  next v value =>
    split at taken
    next => cases taken
    next report decoded =>
      obtain rfl := Except.ok.inj taken
      obtain ⟨d, spelled', means, within⟩ := parse_eq_ok_iff.mp value
      obtain rfl := spelled'.unique unambiguous_textAt spelled
      exact ((agrees_decoder once within).parse_iff spelled means).mpr decoded

/-- A report that is read from a body at once is read by way of the value that the body is, and the
other way round if neither `data` nor the metrics in it are repeated. A body is reported as
malformed exactly if it is no value, and as of another form in all other cases. -/
theorem read_agrees_parse (url : String) (body : Bytes) :
    (∀ r, proxyDecoder.parse body = .ok r → read url body = .ok r) ∧
    (∀ ms r, Spells TextAt body (.object ms) → Once "status" ms → read url body = .ok r →
      proxyDecoder.parse body = .ok r) ∧
    ((∃ reason, read url body = .error (.malformed url reason)) ↔ ∀ v, Value.parse body ≠ .ok v) ∧
    ∀ v e, Value.parse body = .ok v → read url body = .error e →
      ∃ text, e = .unexpectedShape text := by
  refine ⟨fun r => read_of_parse url, fun ms r => parse_of_read, ?_, ?_⟩
  · rw [read]
    cases Value.parse body with
    | error fault => simp
    | ok v => cases decoded : proxyDecoder.fromValue v <;> simp [decoded]
  · intro v e value failed
    rw [read, value] at failed
    cases decoded : proxyDecoder.fromValue v with
    | error cause =>
      simp only [decoded] at failed
      exact ⟨_, (Except.error.inj failed).symm⟩
    | ok report => simp [decoded] at failed

/-! ## Writing a report and reading it back -/

/-- A report that repeats no name is read from its value. -/
theorem fromValue_toValue (rest : "data" ∉ Members.names r.rest)
    (beside : key ∉ Members.names r.beside) :
    (decoder outer inner key).fromValue (r.toValue key) = .ok r := by
  refine fromValue_decoder_iff.mpr
    ⟨_, (key, .object r.metrics) :: r.beside, r.metrics, rfl, if_pos rfl, if_pos rfl, ?_⟩
  rw [List.filter_cons_of_neg (by simp), List.filter_cons_of_neg (by simp),
    Members.filter_ne_of_not_mem rest, Members.filter_ne_of_not_mem beside]

/-- In a report that repeats no name nothing stands beside the metrics under their name. -/
theorem names_of_distinct (distinct : (r.toValue key).Distinct) :
    "data" ∉ Members.names r.rest ∧ key ∉ Members.names r.beside := by
  obtain ⟨names, members⟩ := Value.Distinct.object_iff.mp distinct
  obtain ⟨names', -⟩ := Value.Distinct.object_iff.mp (members _ List.mem_cons_self)
  exact ⟨(List.nodup_cons.mp names).1, (List.nodup_cons.mp names').1⟩

theorem once_of_noRepeats (noRepeats : (Document.object ms).NoRepeats) : Once key ms := by
  cases noRepeats with
  | object names members =>
    refine ⟨List.nodup_iff_count_le_one.mp names _, fun ns mem => ?_⟩
    cases members _ mem with
    | object names' => exact List.nodup_iff_count_le_one.mp names' _

/-- A report with integers only that repeats no name and is not nested too deep is read back from
its text. -/
theorem parse_toValue (whole : (r.toValue key).Whole) (distinct : (r.toValue key).Distinct)
    (within : (r.toValue key).Within maxDepth) :
    (decoder outer inner key).parse (Bytes.ofText (r.toValue key).render) = .ok r := by
  obtain ⟨d, tells⟩ := exists_document whole distinct within
  have spelled := spells_render (tells.means.imp fun _ _ h => h.1) tells.noRepeats
  have means := tells.means.imp fun _ _ h => h.2
  obtain ⟨ms, rfl⟩ := means.exists_object
  obtain ⟨outside, inside⟩ := names_of_distinct distinct
  exact ((agrees_decoder (once_of_noRepeats tells.noRepeats) tells.within).parse_iff spelled
    means).mpr (fromValue_toValue outside inside)

/-- What holds of strings and of the proxy's metrics holds of the node's. -/
theorem forall_mem_forNode_metrics {P : Value → Prop} (strings : ∀ x, P (.string x))
    (metrics : ∀ m ∈ r.metrics, P m.2) : ∀ m ∈ r.forNode.metrics, P m.2 := by
  intro m mem
  obtain rfl | mem := Members.mem_assign mem
  · exact strings _
  · obtain rfl | mem := Members.mem_assign mem
    · exact strings _
    · exact metrics m mem

theorem mem_of_mem_forNode_beside {m : String × Value} (mem : m ∈ r.forNode.beside) :
    m ∈ r.beside :=
  (Members.removed_remove "metrics" r.beside).mem mem

/-- The node's value has what the proxy's value has, if all strings have it and each object that
has it keeps it with other members, provided that these have what its own have. -/
theorem toNodeValue_of {P : Nat → Value → Prop} (strings : ∀ depth x, P depth (.string x))
    (objects : ∀ depth ms, P depth (.object ms) → ∃ inner, (∀ m ∈ ms, P inner m.2) ∧
      ∀ ns : Members, (∀ n ∈ ns, P inner n.2) → P depth (.object ns))
    {v : Value} (decoded : proxyDecoder.fromValue v = .ok r) (depth : Nat) (holds : P depth v) :
    P depth r.forNode.toNodeValue := by
  obtain ⟨_, data, status, rfl, atData, atStatus, rfl⟩ := fromValue_proxyDecoder_iff.mp decoded
  obtain ⟨_, outside, rebuild⟩ := objects _ _ holds
  obtain ⟨_, inside, rebuild'⟩ := objects _ _ (outside _ (Members.mem_of_get? atData))
  obtain ⟨_, metrics, rebuild''⟩ := objects _ _ (inside _ (Members.mem_of_get? atStatus))
  refine rebuild _ (List.forall_mem_cons.mpr ⟨rebuild' _ (List.forall_mem_cons.mpr
    ⟨rebuild'' _ (forall_mem_forNode_metrics (strings _) metrics), fun m mem => ?_⟩),
    fun m mem => ?_⟩)
  · exact inside m (List.mem_of_mem_filter (mem_of_mem_forNode_beside mem))
  · exact outside m (List.mem_of_mem_filter mem)

theorem whole_toNodeValue {v : Value} (decoded : proxyDecoder.fromValue v = .ok r)
    (whole : v.Whole) : r.forNode.toNodeValue.Whole := by
  refine toNodeValue_of (P := fun _ => Value.Whole) (fun _ => .string) (fun _ ms here => ?_)
    decoded 0 whole
  cases here with
  | object members => exact ⟨0, members, fun _ => .object⟩

theorem within_toNodeValue {v : Value} (decoded : proxyDecoder.fromValue v = .ok r)
    (within : v.Within depth) : r.forNode.toNodeValue.Within depth := by
  refine toNodeValue_of Value.Within.string (fun _ ms here => ?_) decoded depth within
  cases here with
  | @object inner _ members => exact ⟨inner, members, fun _ => .object⟩

/-- The node's report is read back as it was written, if all numbers in the body are integers of 64
bits: its text is JSON and says what the report holds, and no other member has a name of its own. -/
theorem forNode_read_back {url : String} {d : Document String} (spelled : Spells TextAt body d)
    (integral : d.Integral) (taken : read url body = .ok r) :
    nodeDecoder.parse (Bytes.ofText r.forNode.toNodeValue.render) = .ok r.forNode ∧
      Value.parse (Bytes.ofText r.forNode.toNodeValue.render) = .ok r.forNode.toNodeValue ∧
      IsJson (Bytes.ofText r.forNode.toNodeValue.render) ∧
      "data" ∉ Members.names r.forNode.rest ∧ "metrics" ∉ Members.names r.forNode.beside := by
  obtain ⟨members, data, status, envelope, report⟩ := read_eq_ok_iff.mp taken
  obtain ⟨d', spelled', means, shallow⟩ := parse_eq_ok_iff.mp envelope.1
  obtain rfl := spelled'.unique unambiguous_textAt spelled
  have decoded := fromValue_proxyDecoder_iff.mpr
    ⟨members, data, status, rfl, envelope.2.1, envelope.2.2, report⟩
  have whole := whole_toNodeValue decoded (means.whole integral)
  have within := within_toNodeValue decoded (means.within shallow)
  have distinct : r.forNode.toNodeValue.Distinct := (reshaped_forNode envelope report).distinct
  obtain ⟨e, written, -⟩ := exists_spells_render whole distinct within
  exact ⟨parse_toValue whole distinct within, parse_render whole distinct within, written.isJson,
    names_of_distinct distinct⟩

/-! ## The crowded report -/

/-- The members of the crowded report, with one that is repeated. -/
def crowdedMembers : Members :=
  [("code", .ofNat 1), ("data", .object [("metrics", .ofNat 7), ("a", .array []),
    ("status", .object [("erd_public_key_block_sign", .ofNat 0)]), ("b", .ofNat 8)]),
    ("code", .ofNat 2)]

theorem crowdedBody_eq : crowdedBody = Bytes.ofText (Value.object crowdedMembers).render := by
  decide +kernel

/-- The crowded report is a text of integers that repeats neither `data` nor `status`, and it is
read. -/
theorem exists_spells_crowded :
    ∃ (ms : List (String × Document String)) (r : StatusReport),
      Spells TextAt crowdedBody (.object ms) ∧ Once "status" ms ∧
        (Document.object ms).Integral ∧ read "" crowdedBody = .ok r := by
  have word (depth : Nat) {n : Nat} (fits : n < Numeral.bound64) := Value.Writable.word depth fits
  have metrics : ∀ m ∈ [("erd_public_key_block_sign", Value.ofNat 0)], m.2.Writable 124 := by
    simpa using word 124 (by decide)
  have writable : ∀ m ∈ crowdedMembers, m.2.Writable 126 := by
    simp only [crowdedMembers, List.forall_mem_cons]
    refine ⟨word _ (by decide), .object (by decide) ?_, word _ (by decide), nofun⟩
    simp only [List.forall_mem_cons]
    exact ⟨word _ (by decide), .array nofun, .object (by decide) metrics, word _ (by decide), nofun⟩
  obtain ⟨ms, names, spelled, means, shallow, integral, noRepeats⟩ :=
    exists_spells_members writable
  rw [← crowdedBody_eq] at spelled
  have parsed := parse_eq_ok_iff.mpr ⟨_, spelled, means, shallow⟩
  refine ⟨ms, _, spelled, ⟨by rw [names]; decide, fun ns mem => ?_⟩, integral,
    read_eq_ok_iff.mpr ⟨_, _, _, ⟨parsed, rfl, rfl⟩, rfl⟩⟩
  cases noRepeats _ mem with
  | object names' => exact List.nodup_iff_count_le_one.mp names' _

/-- The crowded report is read both ways. -/
theorem read_agrees_parse_crowded :
    ∃ r, read "" crowdedBody = .ok r ∧ proxyDecoder.parse crowdedBody = .ok r := by
  obtain ⟨ms, r, spelled, once, -, taken⟩ := exists_spells_crowded
  exact ⟨r, taken, (read_agrees_parse "" crowdedBody).2.1 ms r spelled once taken⟩

/-- The node's report that is made of the crowded one is read back, without the other `metrics`. -/
theorem forNode_read_back_crowded :
    ∃ r, read "" crowdedBody = .ok r ∧
      nodeDecoder.parse (Bytes.ofText r.forNode.toNodeValue.render) = .ok r.forNode ∧
      "metrics" ∉ Members.names r.forNode.beside := by
  obtain ⟨ms, r, spelled, -, integral, taken⟩ := exists_spells_crowded
  obtain ⟨back, -, -, -, fresh⟩ := forNode_read_back spelled integral taken
  exact ⟨r, taken, back, fresh⟩

end StatusReport

end ObserverRelay.Relay
