import QbitNetwork.Decoding
import QbitNetwork.Handshake
import QbitNetwork.Calls

/-! A wallet's file: what `save` writes under a password, and what `load` makes of whatever it
finds there. -/
namespace QbitNetwork

/- `hashlib.scrypt` for 32 bytes, and AES-256-GCM, which takes the key, the nonce, the data and the
associated data. Any exception of its decryption is caught. -/
class Vault where
  scrypt : Bytes → Bytes → Json → Json → Json → Except PyExc Bytes
  aesgcmEncrypt : Bytes → Bytes → Bytes → Bytes → Except PyExc Bytes
  aesgcmDecrypt : Bytes → Bytes → Bytes → Bytes → Option Bytes
  aesgcmTag : ∀ {key nonce data aad sealed}, aesgcmEncrypt key nonce data aad = .ok sealed →
    sealed.length = data.length + 16
  aesgcmOpens : ∀ {key nonce data aad sealed}, aesgcmEncrypt key nonce data aad = .ok sealed →
    aesgcmDecrypt key nonce sealed aad = some data

structure Wallet where
  signingSk : Bytes
  signingPk : Bytes
  encryptionSk : Bytes
  encryptionPk : Bytes
  deriving DecidableEq

namespace Wallet

def scryptN : Int := 2 ^ 14
def scryptR : Int := 8
def scryptP : Int := 1
def scryptSaltLen : Nat := 32
def mldsaSkSize : Nat := 4032
def mlkemSkSize : Nat := 2400

structure Draw where
  salt : Bytes
  nonce : Bytes
  saltSize : salt.length = scryptSaltLen
  nonceSize : nonce.length = 12

/- `bytes.fromhex(data[key])`. -/
def hexItem (data : Json) (key : String) : Except PyExc Bytes := do (← data.item key).fromHexValue

section Aes
variable [Vault]

def aesEncrypt (key nonce plaintext aad : Bytes) : Except PyExc Bytes := do
  .ok (nonce ++ (← Vault.aesgcmEncrypt key nonce plaintext aad))

def aesDecrypt (key data aad : Bytes) : Option Bytes :=
  if data.length < 28 then none else Vault.aesgcmDecrypt key (data.take 12) (data.drop 12) aad

theorem aesOpens {key nonce plaintext aad data : Bytes} (size : nonce.length = 12)
    (run : aesEncrypt key nonce plaintext aad = .ok data) : aesDecrypt key data aad = some plaintext := by
  simp only [aesEncrypt,Outcome.bindOk,Except.ok.injEq] at run
  obtain ⟨body,made,rfl⟩ := run
  have tagged := Vault.aesgcmTag made
  rw [aesDecrypt,if_neg (by rw [List.length_append]; omega),List.take_left' size,List.drop_left' size]
  exact Vault.aesgcmOpens made

end Aes

section Secrets

/- `len(data).to_bytes(4, 'big')`. -/
def lengthPrefix (data : Bytes) : Except PyExc Bytes :=
  if data.length < 2 ^ 32 then
    .ok ((List.range 4).map (fun i => UInt8.ofNat (data.length / 256 ^ (3 - i) % 256)))
  else .error .overflowError

/- `int.from_bytes(data, 'big')`. -/
def fromBytes (data : Bytes) : Nat := data.foldl (fun n b => 256 * n + b.toNat) 0

def plaintext (w : Wallet) : Except PyExc Bytes := do
  .ok ((← lengthPrefix w.signingSk) ++ w.signingSk ++ (← lengthPrefix w.encryptionSk) ++ w.encryptionSk)

def takeSecret (label : String) (size : Nat) (plaintext : Bytes) : Except PyExc (Bytes × Bytes) := do
  raiseIf (plaintext.length < 4) s!"truncated plaintext: missing {label} length"
  let length := fromBytes (plaintext.take 4)
  raiseIf (length ≠ size) s!"unexpected {label} length: {length}"
  raiseIf (plaintext.length < 4 + length) s!"truncated plaintext: {label} incomplete"
  .ok ((plaintext.drop 4).take length,plaintext.drop (4 + length))

def secrets (plaintext : Bytes) : Except PyExc (Bytes × Bytes) := do
  let (signingSk,rest) ← takeSecret "signing_sk" mldsaSkSize plaintext
  let (encryptionSk,rest) ← takeSecret "encryption_sk" mlkemSkSize rest
  raiseIf (rest ≠ []) s!"trailing data after keys: {rest.length} bytes"
  .ok (signingSk,encryptionSk)

def Keyed (w : Wallet) : Prop := w.signingSk.length = mldsaSkSize ∧ w.encryptionSk.length = mlkemSkSize

end Secrets

section File

def pyMax (value : Json) (bound : Int) : Except PyExc Json := do
  let below ← value.less (.int bound)
  .ok (if below then .int bound else value)

def scryptParam (params : Json) (key : String) (least most : Int) : Except PyExc Json := do
  Handshake.pyMin (← pyMax (← params.get key (.int least)) least) most

structure ScryptParams where
  n : Json
  r : Json
  p : Json

def scryptParams (data : Json) : Except PyExc ScryptParams := do
  let params ← data.get "scrypt" (.obj [])
  let n ← scryptParam params "n" scryptN (2 ^ 20)
  let r ← scryptParam params "r" scryptR 16
  let p ← scryptParam params "p" scryptP 4
  .ok ⟨n,r,p⟩

def fromDict (data : Json) : Except PyExc Wallet := do
  let signingSk ← hexItem data "signing_sk"
  let signingPk ← hexItem data "signing_pk"
  let encryptionSk ← hexItem data "encryption_sk"
  let encryptionPk ← hexItem data "encryption_pk"
  .ok { signingSk, signingPk, encryptionSk, encryptionPk }

variable [Env]

def address (w : Wallet) : Address := deriveAddress w.signingPk

def toDict (w : Wallet) : List (String × Json) :=
  [("address",.str w.address),("signing_sk",.str (hex w.signingSk)),("signing_pk",.str (hex w.signingPk)),
   ("encryption_sk",.str (hex w.encryptionSk)),("encryption_pk",.str (hex w.encryptionPk))]

variable [Vault]

def scryptKey (password : String) (salt : Bytes) (params : ScryptParams) : Except PyExc Bytes :=
  Vault.scrypt (encode password) salt params.n params.r params.p

def encrypt (w : Wallet) (password : String) (draw : Draw) : Except PyExc Json := do
  let dk ← scryptKey password draw.salt ⟨.int scryptN,.int scryptR,.int scryptP⟩
  let plaintext ← w.plaintext
  let ciphertext ← aesEncrypt dk draw.nonce plaintext (encode w.address)
  .ok (.obj
    [("encrypted",.bool true),("version",.int 1),("address",.str w.address),
     ("signing_pk",.str (hex w.signingPk)),("encryption_pk",.str (hex w.encryptionPk)),
     ("salt",.str (hex draw.salt)),("ciphertext",.str (hex ciphertext)),
     ("scrypt",.obj [("n",.int scryptN),("r",.int scryptR),("p",.int scryptP)])])

def save (w : Wallet) (password : String) (draw : Draw) : Except PyExc Json :=
  if password = "" then .ok (.obj (("encrypted",.bool false) :: w.toDict)) else w.encrypt password draw

/- An address that is not a string has no `encode`, which is caught with the rest. -/
def openSealed (key ciphertext : Bytes) (address : Json) : Except PyExc Bytes :=
  orValueError "decryption failed: wrong password or tampered file"
    (address.strOf.bind (fun text => aesDecrypt key ciphertext (encode text)))

def decrypt (data : Json) (password : String) : Except PyExc Wallet := do
  let salt ← hexItem data "salt"
  let params ← scryptParams data
  let dk ← scryptKey password salt params
  let address ← data.item "address"
  let ciphertext ← hexItem data "ciphertext"
  let plaintext ← openSealed dk ciphertext address
  let (signingSk,encryptionSk) ← secrets plaintext
  let signingPk ← hexItem data "signing_pk"
  let encryptionPk ← hexItem data "encryption_pk"
  let wallet : Wallet := { signingSk, signingPk, encryptionSk, encryptionPk }
  raiseIf (address.equal (.str wallet.address) = false) "address mismatch after decryption (tampered file?)"
  .ok wallet

/- The file is the value in it, or what `json.load` raises on it. -/
def load (file : Except PyExc Json) (password : String) : Except PyExc Wallet := do
  let data ← file
  if (← data.get "encrypted" .null).truthy then do
    raiseIf (password = "") "wallet is encrypted, password required"
    decrypt data password
  else fromDict data

end File

section Fields

def Raises {α : Type} (kind : PyExc → Prop) (x : Except PyExc α) : Prop := ∀ e, x = .error e → kind e

abbrev Plain {α : Type} (x : Except PyExc α) : Prop := Raises (fun e => ¬e.Caught) x

end Fields

section Reading

theorem lengthPrefixReads {data front : Bytes} (run : lengthPrefix data = .ok front) :
    front.length = 4 ∧ fromBytes front = data.length := by
  unfold lengthPrefix at run
  split at run
  · rename_i small
    cases run
    refine ⟨by simp,?_⟩
    simp [fromBytes,List.range_succ]
    omega
  · cases run

theorem takeSecretReads {secret front rest : Bytes} (run : lengthPrefix secret = .ok front) {label : String} {size : Nat}
    {taken : Bytes × Bytes} : takeSecret label size (front ++ (secret ++ rest)) = .ok taken ↔
      secret.length = size ∧ taken = (secret,rest) := by
  obtain ⟨four,read⟩ := lengthPrefixReads run
  have wide : ¬(front ++ (secret ++ rest)).length < 4 := by
    rw [List.length_append]
    omega
  have whole : ¬(front ++ (secret ++ rest)).length < 4 + secret.length := by
    rw [List.length_append,List.length_append]
    omega
  have inner : ((front ++ (secret ++ rest)).drop 4).take secret.length = secret := by
    rw [List.drop_left' four,List.take_left' rfl]
  have outer : (front ++ (secret ++ rest)).drop (4 + secret.length) = rest := by
    rw [← List.append_assoc]
    exact List.drop_left' (by rw [List.length_append,four])
  simp only [takeSecret,List.take_left' four,read,Outcome.bindOk,raiseIfOk,wide,whole,inner,outer]
  grind

theorem secretsRead {w : Wallet} {data : Bytes} (run : w.plaintext = .ok data) {taken : Bytes × Bytes} :
    secrets data = .ok taken ↔ w.Keyed ∧ taken = (w.signingSk,w.encryptionSk) := by
  simp only [plaintext,Outcome.bindOk,Except.ok.injEq] at run
  obtain ⟨front,first,front',second,rfl⟩ := run
  have ending (taken : Bytes × Bytes) : takeSecret "encryption_sk" mlkemSkSize (front' ++ w.encryptionSk) = .ok taken ↔
      w.encryptionSk.length = mlkemSkSize ∧ taken = (w.encryptionSk,[]) := by
    rw [← takeSecretReads second,List.append_nil]
  simp only [secrets,Outcome.bindOk,List.append_assoc,takeSecretReads first,and_assoc,exists_and_left,exists_eq_left,
    ending,raiseIfOk,Keyed]
  constructor
  · rintro ⟨keyed,keyed',-,-,made⟩
    cases made
    exact ⟨keyed,keyed',rfl⟩
  · rintro ⟨keyed,keyed',rfl⟩
    exact ⟨keyed,keyed',fun more => more rfl,(),rfl⟩

end Reading

section Tampering
variable [Env] [Vault]

omit [Env] [Vault] in
theorem hexItemHex {data : Json} {key : String} {value : Bytes} (found : data.item key = .ok (.str (hex value))) :
    hexItem data key = .ok value := by
  rw [hexItem,found]
  simp only [bind,Except.bind,Json.fromHexValue,Json.fromHexHex]

omit [Env] in
theorem openSealedOpens {key ciphertext plaintext : Bytes} {address : Json}
    (run : openSealed key ciphertext address = .ok plaintext) :
    ∃ text, address = .str text ∧ aesDecrypt key ciphertext (encode text) = some plaintext := by
  cases address with
  | str text =>
    refine ⟨text,rfl,?_⟩
    unfold openSealed orValueError at run
    split at run
    · rename_i opened
      cases run
      exact opened
    · cases run
  | _ => cases run

end Tampering

end Wallet

namespace Devnet

section Legacy
attribute [local instance] legacy

def sealTag (key nonce data aad : Bytes) : Bytes := (Devnet.hash (key ++ nonce ++ aad ++ data)).take 16

theorem sealTagLength (key nonce data aad : Bytes) : (sealTag key nonce data aad).length = 16 := by
  simp [sealTag,Devnet.hash]

def derive (password salt : Bytes) (n r p : Json) : Except PyExc Bytes :=
  match n.intOf,r.intOf,p.intOf with
  | some n,some r,some p => .ok (Devnet.hash (password ++ salt ++ encode s!"{n},{r},{p}"))
  | _,_,_ => .error .typeError

@[reducible] def vault : Vault where
  scrypt := derive
  aesgcmEncrypt := fun key nonce data aad => .ok (data ++ sealTag key nonce data aad)
  aesgcmDecrypt := fun key nonce sealed aad =>
    let data := sealed.take (sealed.length - 16)
    if sealed.drop (sealed.length - 16) = sealTag key nonce data aad then some data else none
  aesgcmTag := by
    intro key nonce data aad sealed run
    cases run
    rw [List.length_append,sealTagLength]
  aesgcmOpens := by
    intro key nonce data aad sealed run
    cases run
    have size : (data ++ sealTag key nonce data aad).length - 16 = data.length := by
      rw [List.length_append,sealTagLength,Nat.add_sub_cancel]
    simp only [size,List.take_left' rfl,List.drop_left' rfl,if_true]

attribute [local instance] vault

def draw : Wallet.Draw := ⟨List.replicate 32 5,List.replicate 12 6,List.length_replicate,List.length_replicate⟩

def keeper : Wallet := ⟨List.replicate 4032 1,wideKey,List.replicate 2400 2,List.replicate 1184 3⟩

theorem keeperKeyed : keeper.Keyed := ⟨List.length_replicate,List.length_replicate⟩

theorem keeperSaved : ∃ original, keeper.save "a password" draw = .ok original := by
  have prefixed {data : Bytes} {size : Nat} (length : data.length = size) (small : size < 2 ^ 32) :
      ∃ front, Wallet.lengthPrefix data = .ok front := ⟨_,if_pos (length ▸ small)⟩
  obtain ⟨front,first⟩ := prefixed keeperKeyed.1 (by decide)
  obtain ⟨front',second⟩ := prefixed keeperKeyed.2 (by decide)
  have packed : keeper.plaintext = .ok (front ++ keeper.signingSk ++ front' ++ keeper.encryptionSk) := by
    simp only [Wallet.plaintext,first,second,bind,Except.bind]
  rw [Wallet.save,if_neg (by decide),Wallet.encrypt]
  simp only [packed,bind,Except.bind]
  exact ⟨_,rfl⟩

end Legacy

end Devnet

end QbitNetwork
