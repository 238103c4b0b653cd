import QbitNetwork.Signer
import QbitNetwork.Wallet

/-! The SDK's key file, and what the SDK makes of the files of the node's wallets. -/
namespace QbitNetwork.Sdk
open Wallet (hexItem scryptKey scryptParam scryptN scryptR scryptP lengthPrefix)

namespace KeyPair

def ofKeys (sk pk : Bytes) : Except PyExc KeyPair :=
  if pkSize : pk.length = mldsaPkSize then
    if skSize : sk.length = mldsaSkSize then .ok { sk, pk, skSize, pkSize }
    else .error (.valueError s!"secret key must be {mldsaSkSize} bytes, got {sk.length}")
  else .error (.valueError s!"public key must be {mldsaPkSize} bytes, got {pk.length}")

theorem ofKeysOk {sk pk : Bytes} {kp : KeyPair} : ofKeys sk pk = .ok kp ↔ kp.sk = sk ∧ kp.pk = pk := by
  unfold ofKeys
  constructor
  · intro run
    split at run
    · split at run
      · cases run
        exact ⟨rfl,rfl⟩
      · cases run
    · cases run
  · rintro ⟨rfl,rfl⟩
    rw [dif_pos kp.pkSize,dif_pos kp.skSize]

/- The secret key behind its length; what follows it is not looked at. -/
def secretKey (plaintext : Bytes) : Except PyExc Bytes := do
  raiseIf (plaintext.length < 4) "truncated ciphertext"
  let length := Wallet.fromBytes (plaintext.take 4)
  raiseIf (length ≠ mldsaSkSize) s!"unexpected secret key length: {length}"
  raiseIf (plaintext.length < 4 + length) "truncated secret key data"
  .ok ((plaintext.drop 4).take length)

variable [Env] [Vault]

def save (kp : KeyPair) (password : String) (draw : Wallet.Draw) : Except PyExc Json := do
  raiseIf (password = "") "password is required for saving keypairs"
  let dk ← scryptKey password draw.salt ⟨.int scryptN,.int scryptR,.int scryptP⟩
  let plaintext := (← lengthPrefix kp.sk) ++ kp.sk
  let ciphertext ← Vault.aesgcmEncrypt dk draw.nonce plaintext (encode kp.address)
  .ok (.obj
    [("version",.int 1),("address",.str kp.address),("signing_pk",.str (hex kp.pk)),
     ("crypto",.obj
       [("cipher",.str "aes-256-gcm"),("kdf",.str "scrypt"),
        ("kdfparams",.obj
          [("n",.int scryptN),("r",.int scryptR),("p",.int scryptP),("dklen",.int 32),
           ("salt",.str (hex draw.salt))]),
        ("ciphertext",.str (hex ciphertext)),("nonce",.str (hex draw.nonce))])])

def openSealed (key nonce ciphertext : Bytes) (address : Json) : Except PyExc Bytes :=
  orValueError "decryption failed: wrong password or tampered file"
    (address.strOf.bind (fun text => Vault.aesgcmDecrypt key nonce ciphertext (encode text)))

def loadSealed (data crypto : Json) (password : String) : Except PyExc KeyPair := do
  let kdfparams ← crypto.item "kdfparams"
  let salt ← hexItem kdfparams "salt"
  let n ← scryptParam kdfparams "n" scryptN (2 ^ 20)
  let r ← scryptParam kdfparams "r" scryptR 16
  let p ← scryptParam kdfparams "p" scryptP 4
  let dk ← scryptKey password salt ⟨n,r,p⟩
  let nonce ← hexItem crypto "nonce"
  let ciphertext ← hexItem crypto "ciphertext"
  let address ← data.item "address"
  let plaintext ← openSealed dk nonce ciphertext address
  let sk ← secretKey plaintext
  let pk ← hexItem data "signing_pk"
  let kp ← ofKeys sk pk
  raiseIf (address.equal (.str kp.address) = false) "address mismatch after decryption"
  .ok kp

/- A file without a "crypto" is taken for an unencrypted wallet of the node. -/
def load (file : Except PyExc Json) (password : String) : Except PyExc KeyPair := do
  raiseIf (password = "") "password is required"
  let data ← file
  match ← data.get "crypto" .null with
  | .null => do
    let sk ← hexItem data "signing_sk"
    let pk ← hexItem data "signing_pk"
    ofKeys sk pk
  | crypto => loadSealed data crypto password

omit [Env] [Vault] in
theorem secretKeyReads {kp : KeyPair} {front : Bytes} (run : lengthPrefix kp.sk = .ok front) :
    secretKey (front ++ kp.sk) = .ok kp.sk := by
  obtain ⟨four,read⟩ := Wallet.lengthPrefixReads run
  have length : (front ++ kp.sk).length = 4 + kp.sk.length := by rw [List.length_append,four]
  have taken : ((front ++ kp.sk).drop 4).take mldsaSkSize = kp.sk := by
    rw [List.drop_left' four,← kp.skSize,List.take_length]
  simp only [secretKey,List.take_left' four,read,Outcome.bindOk,raiseIfOk,length,taken,kp.skSize]
  exact ⟨(),by omega,(),fun other => other rfl,(),by omega,trivial⟩

theorem savedLoads {kp : KeyPair} {password : String} {draw : Wallet.Draw} {file : Json}
    (saved : kp.save password draw = .ok file) : load (.ok file) password = .ok kp := by
  simp only [save,Outcome.bindOk,raiseIfOk,Except.ok.injEq] at saved
  obtain ⟨_,secret,dk,derived,front,prefixed,ciphertext,sealed,rfl⟩ := saved
  have opened : openSealed dk draw.nonce ciphertext (.str kp.address) = .ok (front ++ kp.sk) := by
    simp only [openSealed,Json.strOf,Option.bind_some,Vault.aesgcmOpens sealed,orValueError]
  simp only [load,Outcome.bindOk,raiseIfOk,Except.ok.injEq,exists_eq_left']
  refine ⟨(),secret,_,rfl,?_⟩
  change loadSealed _ _ password = _
  simp only [loadSealed,Outcome.bindOk,raiseIfOk,ofKeysOk,Bool.not_eq_false]
  exact ⟨_,rfl,draw.salt,Wallet.hexItemHex rfl,.int scryptN,rfl,.int scryptR,rfl,.int scryptP,rfl,dk,derived,draw.nonce,
    Wallet.hexItemHex rfl,ciphertext,Wallet.hexItemHex rfl,_,rfl,_,opened,kp.sk,secretKeyReads prefixed,kp.pk,
    Wallet.hexItemHex rfl,kp,⟨rfl,rfl⟩,(),Json.equalStrRefl _,rfl⟩

theorem nodeFileRefused {w : Wallet} {password : String} {draw : Wallet.Draw} {file : Json} (secret : password ≠ "")
    (saved : w.save password draw = .ok file) (other : String) (given : other ≠ "") :
    load (.ok file) other = .error (.keyError "signing_sk") := by
  rw [Wallet.save,if_neg secret,Wallet.encrypt] at saved
  simp only [Outcome.bindOk,Except.ok.injEq] at saved
  obtain ⟨key,derived,plaintext,packed,ciphertext,sealed,rfl⟩ := saved
  rw [load,raiseIf,if_neg given]
  rfl

theorem emptyPassword (file : Except PyExc Json) : load file "" = .error (.valueError "password is required") := rfl

end KeyPair

inductive Writer where
  | node (wallet : Wallet)
  | sdk (kp : KeyPair)

namespace Writer

def signingSk : Writer → Bytes
  | .node wallet => wallet.signingSk
  | .sdk kp => kp.sk

def signingPk : Writer → Bytes
  | .node wallet => wallet.signingPk
  | .sdk kp => kp.pk

variable [Env]

def address : Writer → Address
  | .node wallet => wallet.address
  | .sdk kp => kp.address

variable [Vault]

def save (password : String) (draw : Wallet.Draw) : Writer → Except PyExc Json
  | .node wallet => wallet.save password draw
  | .sdk kp => kp.save password draw

end Writer

section Interchange
variable [Env] [Vault]

theorem keyFilesLoad {writer : Writer} {password : String} {draw : Wallet.Draw} {file : Json}
    (saved : writer.save password draw = .ok file) :
    (∃ kp, KeyPair.load (.ok file) password = .ok kp ∧ kp.address = writer.address ∧ kp.pk = writer.signingPk ∧
      kp.sk = writer.signingSk) ↔ ∃ kp, writer = .sdk kp := by
  cases writer with
  | sdk kp => exact ⟨fun _ => ⟨kp,rfl⟩,fun _ => ⟨kp,KeyPair.savedLoads saved,rfl,rfl,rfl⟩⟩
  | node wallet =>
    refine ⟨?_,(fun ⟨_,other⟩ => nomatch other)⟩
    rintro ⟨kp,loads,-⟩
    by_cases secret : password = ""
    · cases secret
      cases (KeyPair.emptyPassword (.ok file)).symm.trans loads
    · cases (KeyPair.nodeFileRefused secret saved password secret).symm.trans loads

end Interchange

namespace Devnet
open QbitNetwork.Devnet

section Legacy
attribute [local instance] legacy vault

theorem keeperSkSize : (List.replicate 4032 (1 : UInt8)).length = mldsaSkSize := List.length_replicate

theorem keeperPkSize : wideKey.length = mldsaPkSize := List.length_replicate

def keeperPair : KeyPair := ⟨List.replicate 4032 1,wideKey,keeperSkSize,keeperPkSize⟩

theorem keeperPairSaved : ∃ file, keeperPair.save "a password" draw = .ok file := by
  obtain ⟨front,first⟩ : ∃ front, lengthPrefix keeperPair.sk = .ok front :=
    ⟨_,if_pos (by rw [keeperPair.skSize]; decide)⟩
  rw [KeyPair.save,raiseIf,if_neg (by decide)]
  simp only [first,bind,Except.bind]
  exact ⟨_,rfl⟩

theorem keyFilesLoadSaved : ∃ file, (Writer.sdk keeperPair).save "a password" draw = .ok file ∧
    ∃ kp, KeyPair.load (.ok file) "a password" = .ok kp ∧ kp.address = keeperPair.address ∧ kp.pk = keeperPair.pk ∧
      kp.sk = keeperPair.sk := by
  obtain ⟨file,saved⟩ := keeperPairSaved
  have written : (Writer.sdk keeperPair).save "a password" draw = .ok file := saved
  exact ⟨file,saved,(keyFilesLoad written).mpr ⟨_,rfl⟩⟩

theorem nodeFileUnread : ∃ file, keeper.save "a password" draw = .ok file ∧ keeper.signingSk = keeperPair.sk ∧
    keeper.signingPk = keeperPair.pk ∧ KeyPair.load (.ok file) "a password" = .error (.keyError "signing_sk") := by
  obtain ⟨file,saved⟩ := keeperSaved
  have secret : "a password" ≠ "" := by decide
  exact ⟨file,saved,rfl,rfl,KeyPair.nodeFileRefused secret saved _ secret⟩

end Legacy

end Devnet

end QbitNetwork.Sdk
