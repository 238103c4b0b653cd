import QbitNetwork.Header
import QbitNetwork.Runs

/-! Headers of a peer before the blocks are fetched: how they join on to one another, and
whose signatures they carry. -/
namespace QbitNetwork

abbrev Header := List (String × Json)

namespace Header

def value (header : Header) (field : String) : Json := (Json.obj header).field field

def position (header : Header) : Int := (header.value "index").intOf.getD 0

/- The object `_verify_header_signature` rebuilds. -/
def canonical (header : Header) : Except PyExc Json := do
  let dict := Json.obj header
  let baseFee ← dict.get "baseFee" (.int 0)
  let index ← dict.item "index"
  let merkleRoot ← dict.get "merkleRoot" (.str "")
  let prevHash ← dict.item "prevHash"
  let timestamp ← dict.item "timestamp"
  let txCount ← dict.get "txCount" (.int 0)
  let validator ← dict.get "validator" (.str "")
  let receiptsRoot ← optionalRoot dict "receiptsRoot"
  let stateRoot ← optionalRoot dict "stateRoot"
  .ok (headerOf baseFee index merkleRoot prevHash timestamp txCount validator receiptsRoot stateRoot)

variable [Env]

def verifySignature (header : Header) (validatorPkHex : String) : Bool :=
  let verdict : Except PyExc Bool := do
    let obj ← header.canonical
    let signature ← (Json.obj header).item "signature"
    let sig ← signature.fromHexValue
    let pk ← (Json.str validatorPkHex).fromHexValue
    .ok (verifySig pk obj.dumps sig)
  match verdict with
  | .ok valid => valid
  | .error _ => false

theorem verifySignatureSound {header : Header} {pk : Bytes} (valid : header.verifySignature (hex pk) = true) :
    ∃ obj sig, header.canonical = .ok obj ∧ verifySig pk obj.dumps sig = true := by
  simp only [verifySignature] at valid
  split at valid
  · rename_i _ run
    simp only [Outcome.bindOk,Json.fromHexValue,Json.fromHexHex,Except.ok.injEq] at run
    obtain ⟨obj,made,_,-,sig,-,pk',same,verdict⟩ := run
    rw [← same] at verdict
    exact ⟨obj,sig,made,verdict.trans valid⟩
  · cases valid

end Header

section Chain
variable [PyText]

def requiredFields : List String := ["index","timestamp","prevHash","hash","validator"]

def checkFields (i : Nat) (hdr : Header) : Check :=
  requiredFields.forM fun field =>
    refuseIf ((Json.lookup hdr field).isNone = true)
      ("header at position " ++ toString i ++ " missing field '" ++ field ++ "'")

def checkLink (startPrevHash : Json) (prev : Option Header) (hdr : Header) : Check :=
  match prev with
  | none =>
    if startPrevHash.truthy ∧ (hdr.value "prevHash").equal startPrevHash = false then do
      let expected ← orRaise startPrevHash.shortText
      let got ← orRaise (hdr.value "prevHash").shortText
      .error (.refused ("header chain doesn't connect: expected prevHash " ++ expected ++ ", got " ++ got))
    else .ok ()
  | some prev => do
    if (hdr.value "prevHash").equal (prev.value "hash") = false then
      let expected ← orRaise (prev.value "hash").shortText
      let got ← orRaise (hdr.value "prevHash").shortText
      .error (.refused ("broken prev_hash linkage at index " ++ PyText.str (hdr.value "index") ++
        ": expected " ++ expected ++ ", got " ++ got))
    refuseIf (hdr.position ≠ prev.position + 1)
      ("non-consecutive indices: " ++ PyText.str (prev.value "index") ++ " -> " ++
        PyText.str (hdr.value "index"))
    let earlier ← orRaise ((hdr.value "timestamp").less (prev.value "timestamp"))
    refuseIf (earlier = true)
      ("non-monotonic timestamp at index " ++ PyText.str (hdr.value "index") ++ ": " ++
        PyText.str (hdr.value "timestamp") ++ " < " ++ PyText.str (prev.value "timestamp"))

def checkValidator (registry : Dict Address Bytes) (hdr : Header) : Check :=
  let validator := hdr.value "validator"
  if validator.truthy ∧ 0 < hdr.position then do
    let key ← orRaise validator.tableKey
    refuseIf (¬∃ address ∈ key, address ∈ registry)
      ("unknown validator '" ++ PyText.str validator ++ "' at index " ++ PyText.str (hdr.value "index"))
  else .ok ()

def checkHeader (registry : Dict Address Bytes) (startPrevHash : Json) (i : Nat) (prev : Option Header)
    (hdr : Header) : Check := do
  checkFields i hdr
  refuseIf (¬∃ index ∈ (hdr.value "index").intOf, 0 ≤ index) ("invalid index at position " ++ toString i)
  checkLink startPrevHash prev hdr
  checkValidator registry hdr

def checkHeaders (registry : Dict Address Bytes) (startPrevHash : Json) :
    Nat → Option Header → List Header → Check
  | _,_,[] => .ok ()
  | i,prev,hdr :: rest => do
    checkHeader registry startPrevHash i prev hdr
    checkHeaders registry startPrevHash (i + 1) (some hdr) rest

def Blockchain.validateHeaderChain (s : Blockchain) (headers : List Header) (startPrevHash : Json) : Check :=
  checkHeaders s.state.staking.validatorRegistry startPrevHash 0 none headers

end Chain

section Signatures
variable [Env] [PyText]

abbrev SigExecutor := Nat → Option String

def signatureJob (registry : Dict Address Bytes) (hdr : Header) :
    Except Halt (Option (Json × Header × String)) :=
  let idx := (Json.lookup hdr "index").getD (.int 0)
  let validator := (Json.lookup hdr "validator").getD (.str "")
  if idx.equal (.int 0) then .ok none
  else if validator.truthy = false then
    .error (.refused ("header #" ++ PyText.str idx ++ " missing validator field"))
  else do
    let key ← orRaise validator.tableKey
    match key.bind (fun address => registry[address]?) with
    | none => .error (.refused ("no public key for validator '" ++ PyText.str validator ++
        "' at header #" ++ PyText.str idx))
    | some pk =>
      if ((Json.lookup hdr "signature").getD .null).truthy then .ok (some (idx,hdr,hex pk))
      else .error (.refused ("header #" ++ PyText.str idx ++ " missing signature"))

def awaitJob (executor : SigExecutor) (job : (Json × Header × String) × Nat) : Check :=
  match executor job.2 with
  | some failure => .error (.refused ("signature verification error at header #" ++
      PyText.str job.1.1 ++ ": " ++ failure))
  | none => refuseIf (job.1.2.1.verifySignature job.1.2.2 = false)
      ("invalid PQC signature at header #" ++ PyText.str job.1.1)

/- `none` is a node without a process pool, which verifies nothing. -/
def Blockchain.verifyHeaderSignaturesAsync (s : Blockchain) (sigExecutor : Option SigExecutor)
    (headers : List Header) : Check :=
  match sigExecutor with
  | none => .ok ()
  | some executor => do
    let jobs ← headers.mapM (signatureJob s.state.staking.validatorRegistry)
    ((jobs.filterMap id).zipIdx).forM (awaitJob executor)

end Signatures

section Laws

namespace Header

theorem valueOf {header : Header} {field : String} (present : ¬(Json.lookup header field).isNone = true)
    (dflt : Json) : (Json.lookup header field).getD dflt = header.value field := by
  rw [value,Json.field]
  cases found : Json.lookup header field with
  | none => simp [found] at present
  | some value => rfl

end Header

structure Joined (startPrevHash : Json) (prev : Option Header) (hdr : Header) : Prop where
  present : ∀ field ∈ requiredFields, ¬(Json.lookup hdr field).isNone = true
  index : (hdr.value "index").intOf = some hdr.position
  start : prev = none → startPrevHash.truthy = true → (hdr.value "prevHash").equal startPrevHash = true
  claimed : ∀ before ∈ prev, (hdr.value "prevHash").equal (before.value "hash") = true
  next : ∀ before ∈ prev, hdr.position = before.position + 1

theorem checkHeaderJoined [PyText] {registry : Dict Address Bytes} {startPrevHash : Json} {i : Nat}
    {prev : Option Header} {hdr : Header} (passed : checkHeader registry startPrevHash i prev hdr = .ok ()) :
    Joined startPrevHash prev hdr := by
  simp only [checkHeader,Outcome.bindOk,refuseIfOk,not_not,exists_const] at passed
  obtain ⟨_,fields,⟨index,integer,-⟩,_,link,-⟩ := passed
  have present := fun field inside => (refuseIfOk ..).mp (Outcome.forMOk fields field inside)
  have position : (hdr.value "index").intOf = some hdr.position := by
    rw [Header.position,integer,Option.getD_some]
  cases prev with
  | none =>
    refine ⟨present,position,fun _ given => ?_,fun _ absent => absurd absent (by simp),fun _ absent => absurd absent (by simp)⟩
    simp only [checkLink] at link
    split at link
    · simp at link
    · rename_i joins
      exact Bool.of_not_eq_false (fun apart => joins ⟨given,apart⟩)
  | some before =>
    simp only [checkLink] at link
    split at link
    · simp at link
    · rename_i joins
      simp only [Outcome.bindOk,refuseIfOk,not_not] at link
      obtain ⟨-,next,-⟩ := link
      refine ⟨present,position,fun absent => absurd absent (by simp),?_,?_⟩
      · rintro _ ⟨⟩
        exact Bool.of_not_eq_false joins
      · rintro _ ⟨⟩
        exact next

theorem checkHeadersJoined [PyText] {registry : Dict Address Bytes} {startPrevHash : Json} {headers : List Header} :
    ∀ {i : Nat} {prev : Option Header}, checkHeaders registry startPrevHash i prev headers = .ok () →
      (∀ hdr, headers.head? = some hdr → Joined startPrevHash prev hdr) ∧
      ∀ (j : Nat) (before hdr : Header), headers[j]? = some before → headers[j + 1]? = some hdr →
        Joined startPrevHash (some before) hdr := by
  induction headers with
  | nil => simp
  | cons first rest ih =>
    intro i prev passed
    obtain ⟨_,here,later⟩ := (Outcome.bindOk ..).mp passed
    obtain ⟨second,others⟩ := ih later
    refine ⟨?_,?_⟩
    · rintro _ ⟨⟩
      exact checkHeaderJoined here
    · intro j before hdr at' above
      cases j with
      | zero =>
        cases at'
        exact second hdr (by simpa [List.head?_eq_getElem?] using above)
      | succ j => exact others j before hdr at' above

theorem checkHeadersPresent [PyText] {registry : Dict Address Bytes} {startPrevHash : Json}
    {headers : List Header} (passed : checkHeaders registry startPrevHash 0 none headers = .ok ())
    {hdr : Header} (inside : hdr ∈ headers) : ∃ prev, Joined startPrevHash prev hdr := by
  obtain ⟨first,others⟩ := checkHeadersJoined passed
  obtain ⟨j,at'⟩ := List.getElem?_of_mem inside
  cases j with
  | zero => exact ⟨none,first hdr (by rw [List.head?_eq_getElem?,at'])⟩
  | succ j =>
    cases before : headers[j]? with
    | none =>
      have above := List.getElem?_eq_none_iff.mp before
      rw [List.getElem?_eq_none_iff.mpr (by omega)] at at'
      cases at'
    | some prev => exact ⟨some prev,others j prev hdr before at'⟩

namespace Header
variable [Env]

def hash (header : Header) : Except PyExc String := do
  let obj ← header.canonical
  .ok (hex (sha3_256 obj.dumps))

def NamedBy (header : Header) (value : Json) : Prop := ∃ text, header.hash = .ok text ∧ value = .str text

def Signed (registry : Dict Address Bytes) (header : Header) : Prop :=
  ∃ (address : Address) (pk : Bytes) (obj : Json) (sig : Bytes),
    header.value "validator" = .str address ∧ registry[address]? = some pk ∧
      header.canonical = .ok obj ∧ verifySig pk obj.dumps sig = true

end Header

theorem intOfEqual {value : Json} {index : Int} (integer : value.intOf = some index) (other : Int) :
    value.equal (.int other) = decide (index = other) := by
  have numbers : value.equal (.int other) = decide ((index : Rat) = other) := by
    cases value <;> cases integer <;> rfl
  rw [numbers]
  exact decide_eq_decide.mpr Int.cast_inj

theorem tableKeyString {value : Json} {key : Option String} {address : String}
    (run : value.tableKey = .ok key) (found : key = some address) : value = .str address := by
  subst found
  cases value <;> simp_all [Json.tableKey]

theorem signaturesVerified [Env] [PyText] {s : Blockchain} {executor : SigExecutor} {headers : List Header}
    (passed : s.verifyHeaderSignaturesAsync (some executor) headers = .ok ()) {hdr : Header}
    (inside : hdr ∈ headers) {startPrevHash : Json} {prev : Option Header}
    (joined : Joined startPrevHash prev hdr) (later : hdr.position ≠ 0) :
    hdr.Signed s.state.staking.validatorRegistry := by
  obtain ⟨jobs,made,awaited⟩ := (Outcome.bindOk ..).mp passed
  obtain ⟨job,listed,submitted⟩ := Outcome.mapMOk made hdr inside
  have index := Header.valueOf (joined.present "index" (by decide)) (.int 0)
  have validator := Header.valueOf (joined.present "validator" (by decide)) (.str "")
  simp only [signatureJob,index,validator,intOfEqual joined.index,decide_eq_true_eq,if_neg later] at submitted
  split at submitted
  · cases submitted
  obtain ⟨key,hashable,submitted⟩ := (Outcome.bindOk ..).mp submitted
  split at submitted
  · cases submitted
  rename_i pk registered
  split at submitted
  · cases submitted
    obtain ⟨address,named,known⟩ := Option.bind_eq_some_iff.mp registered
    obtain ⟨n,numbered⟩ := List.getElem?_of_mem (List.mem_filterMap (f := id).mpr ⟨_,listed,rfl⟩)
    have ran := Outcome.forMOk awaited (_,n) (List.mem_zipIdx_iff_getElem?.mpr numbered)
    simp only [awaitJob] at ran
    split at ran
    · cases ran
    · obtain ⟨obj,sig,canonical,valid⟩ :=
        Header.verifySignatureSound (Bool.of_not_eq_false ((refuseIfOk ..).mp ran))
      refine ⟨address,pk,obj,sig,?_,known,canonical,valid⟩
      cases hashed : (hdr.value "validator").tableKey with
      | error e => simp [hashed,orRaise] at hashable
      | ok key' =>
        rw [hashed] at hashable
        cases hashable
        exact tableKeyString hashed named
  · cases submitted

structure Authentic [Env] (start : String) (height : Int) (headers : List Header) : Prop where
  linked : ∀ (i : Nat) (prev hdr : Header), headers[i]? = some prev → headers[i + 1]? = some hdr →
    prev.NamedBy (hdr.value "prevHash")
  goesOn : ∀ hdr, headers.head? = some hdr →
    hdr.value "prevHash" = .str start ∧ (hdr.value "index").intOf = some (height + 1)
  named : ∀ hdr ∈ headers, hdr.NamedBy (hdr.value "hash")

end Laws

namespace Blockchain

/- What the two checks leave to the sender: the hash field of each header and the height the first
one claims. A list that passes is an authentic chain exactly where these are right. -/
theorem acceptedHeaders [Env] [PyText] (s : Blockchain) (sigExecutor : Option SigExecutor)
    (headers : List Header) (start : String) (height : Int)
    (chained : s.validateHeaderChain headers (.str start) = .ok ())
    (signed : s.verifyHeaderSignaturesAsync sigExecutor headers = .ok ()) :
    (sigExecutor ≠ none → ∀ hdr ∈ headers, hdr.position ≠ 0 → hdr.Signed s.state.staking.validatorRegistry) ∧
    (Authentic start height headers ↔
      (∀ hdr ∈ headers, hdr.NamedBy (hdr.value "hash")) ∧
      ∀ hdr, headers.head? = some hdr →
        (hdr.value "index").intOf = some (height + 1) ∧ (start = "" → hdr.value "prevHash" = .str "")) := by
  obtain ⟨first,others⟩ := checkHeadersJoined chained
  refine ⟨?_,fun authentic => ⟨authentic.named,?_⟩,?_⟩
  · intro pooled hdr inside later
    obtain ⟨prev,joined⟩ := checkHeadersPresent chained inside
    cases sigExecutor with
    | none => exact absurd rfl pooled
    | some executor => exact signaturesVerified signed inside joined later
  · intro hdr head
    obtain ⟨prevHash,next⟩ := authentic.goesOn hdr head
    exact ⟨next,fun absent => absent ▸ prevHash⟩
  · rintro ⟨named,begins⟩
    refine ⟨?_,?_,named⟩
    · intro i prev hdr before at'
      obtain ⟨text,hashed,claimed⟩ := named prev (List.mem_of_getElem? before)
      have same := (others i prev hdr before at').claimed prev rfl
      rw [claimed] at same
      exact ⟨text,hashed,Json.equalStr same⟩
    · intro hdr head
      obtain ⟨next,absent⟩ := begins hdr head
      refine ⟨?_,next⟩
      by_cases given : start = ""
      · rw [given]
        exact absent given
      · exact Json.equalStr ((first hdr head).start rfl (by simpa [Json.truthy] using given))

end Blockchain

namespace Devnet
open Blockchain

section Legacy
attribute [local instance] legacy plainText

def signedHeader (index timestamp : Int) (prevHash : String) (claimed : String → String) : Header :=
  let fields := [("index",.int index),("timestamp",.int timestamp),("prevHash",.str prevHash),
    ("validator",.str address)]
  match Header.canonical fields with
  | .ok obj => fields ++ [("hash",.str (claimed (hex (sha3_256 obj.dumps)))),
      ("signature",.str (hex (Env.mldsaSign key obj.dumps)))]
  | .error _ => fields

def tipHash : String := active.tipBlock.blockHash

def nextHeader : Header := signedHeader 1 101 tipHash id

def nextHash : String :=
  match nextHeader.hash with
  | .ok text => text
  | .error _ => ""

def honestHeaders : List Header := [nextHeader,signedHeader 2 102 nextHash id]

def forgedHeaders : List Header := [signedHeader 1 101 tipHash (fun _ => "00"),signedHeader 2 102 "00" (fun _ => "00")]

theorem honestChecked : active.validateHeaderChain honestHeaders (.str tipHash) = .ok () ∧
    active.verifyHeaderSignaturesAsync (some fun _ => none) honestHeaders = .ok () := by
  decide +kernel

theorem honestNamed : ∀ hdr ∈ honestHeaders, hdr.NamedBy (hdr.value "hash") := by
  intro hdr inside
  rcases List.mem_cons.mp inside with rfl | inside
  · exact ⟨_,rfl,rfl⟩
  · rw [List.mem_singleton.mp inside]
    exact ⟨_,rfl,rfl⟩

theorem honestAuthentic : Authentic tipHash 0 honestHeaders := by
  refine (acceptedHeaders active (some fun _ => none) honestHeaders tipHash 0 honestChecked.1
    honestChecked.2).2.mpr ⟨honestNamed,?_⟩
  rintro _ ⟨⟩
  exact ⟨rfl,congrArg Json.str⟩

theorem forgedAccepted : active.validateHeaderChain forgedHeaders (.str tipHash) = .ok () ∧
    active.verifyHeaderSignaturesAsync (some fun _ => none) forgedHeaders = .ok () ∧
    ¬Authentic tipHash 0 forgedHeaders := by
  have run : (active.validateHeaderChain forgedHeaders (.str tipHash) = .ok () ∧
      active.verifyHeaderSignaturesAsync (some fun _ => none) forgedHeaders = .ok ()) ∧
      (signedHeader 1 101 tipHash (fun _ => "00")).hash ≠ .ok "00" := by decide +kernel
  obtain ⟨⟨checked,verified⟩,apart⟩ := run
  refine ⟨checked,verified,fun authentic => ?_⟩
  obtain ⟨text,hashed,claimed⟩ := authentic.named _ (List.mem_cons_self ..)
  cases claimed
  exact apart hashed

end Legacy

end Devnet

end QbitNetwork
