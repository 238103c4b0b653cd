import QbitNetwork.Wallet
import QbitNetwork.Lib.OrderedDict

/-! The directory of a node's wallets over any number of starts, each with its own password: what a start
finds, what a save adds or seals, and what is left where a save is cut off. -/
namespace QbitNetwork.WalletDirectory
open Wallet (Draw)

section Model
variable [Env] [Vault]

/- The files by name, each with its value or what `json.load` raises on it. -/
abbrev Files := Dict String (Except PyExc Json)

abbrev Wallets := OrderedDict Address Wallet

def path (address : Address) : String := address ++ ".json"

def reseal (password : String) (draw : Draw) (file : Except PyExc Json) (wallet : Wallet) : Except PyExc (Option Json) := do
  let data ← file
  if (← data.get "encrypted" .null).truthy then .ok none
  else do
    let sealed ← wallet.save password draw
    .ok (some sealed)

def saveWallet (password : String) (draw : Address → Draw) (files : Files) (row : Address × Wallet) :
    Except (Raised PyExc Files) Files :=
  match files[path row.1]? with
  | none =>
    match row.2.save password (draw row.1) with
    | .ok data => .ok (files.insert (path row.1) (.ok data))
    | .error exception => Outcome.raise exception files
  | some file =>
    if password = "" then .ok files
    else match reseal password (draw row.1) file row.2 with
    | .ok (some data) => .ok (files.insert (path row.1) (.ok data))
    | _ => .ok files

def saveWallets (password : String) (draw : Address → Draw) (files : Files) (rows : List (Address × Wallet)) :
    Except (Raised PyExc Files) Files := rows.foldlM (saveWallet password draw) files

def loadWallet (password : String) (files : Files) (wallets : Wallets) (name : String) : Wallets :=
  if ¬".json".toList <:+ name.toList then wallets
  else match files[name]? with
  | none => wallets
  | some file =>
    match Wallet.load file password with
    | .ok wallet => wallets.set wallet.address wallet
    | .error _ => wallets

def loadWallets (password : String) (files : Files) (names : List String) : Wallets :=
  names.foldl (loadWallet password files) .empty

structure Node where
  password : String
  wallets : Wallets

structure World where
  files : Files := ∅
  node : Option Node := none

/- What `start` has in memory: the files of a listing of the directory, and the wallet of its validator. -/
def booted (password : String) (files : Files) (names : List String) (validator : Option Wallet) : Wallets :=
  match validator with
  | none => loadWallets password files names
  | some wallet => (loadWallets password files names).set wallet.address wallet

structure Own (owner : Address → Wallet) (wallet : Wallet) : Prop where
  one : owner wallet.address = wallet
  keyed : wallet.Keyed

/- A save may be cut off behind any of its files, each of which is replaced in one piece; cut off before the first it
is the end of the node without one. -/
inductive Step (owner : Address → Wallet) : World → World → Prop where
  | start {w : World} (down : w.node = none) (password : String) (names : List String) (validator : Option Wallet)
      (listing : ∀ name, name ∈ names ↔ name ∈ w.files) (own : ∀ wallet, validator = some wallet → Own owner wallet) :
      Step owner w { w with node := some ⟨password,booted password w.files names validator⟩ }
  | add {w : World} {node : Node} (up : w.node = some node) (wallet : Wallet) (own : Own owner wallet) :
      Step owner w { w with node := some { node with wallets := node.wallets.set wallet.address wallet } }
  | save {w : World} {node : Node} (up : w.node = some node) (draw : Address → Draw) :
      Step owner w { w with files := Outcome.stateOf (saveWallets node.password draw w.files node.wallets.rows) }
  | crash {w : World} {node : Node} (up : w.node = some node) (draw : Address → Draw) (n : Nat) :
      Step owner w ⟨Outcome.stateOf (saveWallets node.password draw w.files (node.wallets.rows.take n)),none⟩

abbrev Reached (owner : Address → Wallet) (w : World) : Prop := Relation.ReflTransGen (Step owner) {} w

end Model

section Laws
variable [Env] [Vault]

def Faithful : Prop := ∀ key key' nonce data data' aad sealed, Vault.aesgcmEncrypt key nonce data aad = .ok sealed →
  Vault.aesgcmDecrypt key' nonce sealed aad = some data' → data' = data

def Holds (files : Files) (wallet : Wallet) (password : String) : Prop := ∃ draw data,
  files[path wallet.address]? = some (.ok data) ∧ wallet.save password draw = .ok data

section Files
variable {wallet other : Wallet} {password given : String} {draw : Draw} {data : Json}

omit [Env] [Vault] in
theorem pathInjective {a b : Address} (same : path a = path b) : a = b := by
  have chars := congrArg String.toList same
  rw [path,path,String.toList_append,String.toList_append] at chars
  exact String.toList_inj.mp (List.append_cancel_right chars)

theorem savedSealed (saved : wallet.save password draw = .ok data) :
    data.get "encrypted" .null = .ok (.bool (password ≠ "")) := by
  unfold Wallet.save at saved
  split at saved
  · rename_i plain
    cases saved
    simp [plain,Json.get,Json.lookup]
  · rename_i secret
    simp only [Wallet.encrypt,Outcome.bindOk,Except.ok.injEq] at saved
    obtain ⟨_,-,_,-,_,-,rfl⟩ := saved
    simp [secret,Json.get,Json.lookup]

theorem plainReads (saved : wallet.save "" draw = .ok data) (given : String) : Wallet.load (.ok data) given = .ok wallet := by
  rw [Wallet.save,if_pos rfl] at saved
  cases saved
  simp only [Wallet.load,Outcome.bindOk,Except.ok.injEq,exists_eq_left']
  refine ⟨.bool false,rfl,?_⟩
  rw [if_neg (show ¬(Json.bool false).truthy = true by decide)]
  simp only [Wallet.fromDict,Outcome.bindOk]
  exact ⟨_,Wallet.hexItemHex rfl,_,Wallet.hexItemHex rfl,_,Wallet.hexItemHex rfl,_,Wallet.hexItemHex rfl,rfl⟩

theorem sealedReads (keyed : wallet.Keyed) (secret : password ≠ "") (saved : wallet.save password draw = .ok data) :
    Wallet.load (.ok data) password = .ok wallet := by
  rw [Wallet.save,if_neg secret,Wallet.encrypt] at saved
  simp only [Outcome.bindOk,Except.ok.injEq] at saved
  obtain ⟨key,derived,plaintext,packed,ciphertext,sealed,rfl⟩ := saved
  have opened : Wallet.openSealed key ciphertext (.str wallet.address) = .ok plaintext := by
    simp only [Wallet.openSealed,Json.strOf,Option.bind_some,Wallet.aesOpens draw.nonceSize sealed,orValueError]
  simp only [Wallet.load,Outcome.bindOk,Except.ok.injEq,exists_eq_left']
  refine ⟨.bool true,rfl,?_⟩
  rw [if_pos (show (Json.bool true).truthy = true from rfl)]
  simp only [Outcome.bindOk,raiseIfOk,Wallet.decrypt]
  refine ⟨(),secret,draw.salt,Wallet.hexItemHex rfl,⟨.int Wallet.scryptN,.int Wallet.scryptR,.int Wallet.scryptP⟩,rfl,key,
    derived,.str wallet.address,rfl,ciphertext,Wallet.hexItemHex rfl,plaintext,opened,_,
    (Wallet.secretsRead packed).mpr ⟨keyed,rfl⟩,wallet.signingPk,Wallet.hexItemHex rfl,wallet.encryptionPk,
    Wallet.hexItemHex rfl,(),?_,rfl⟩
  rw [Bool.not_eq_false]
  exact Json.equalStrRefl _

theorem savedReads (keyed : wallet.Keyed) (saved : wallet.save password draw = .ok data)
    (right : password = "" ∨ given = password) : Wallet.load (.ok data) given = .ok wallet := by
  by_cases plain : password = ""
  · subst plain
    exact plainReads saved given
  · rcases right with none | rfl
    · exact absurd none plain
    · exact sealedReads keyed plain saved

omit [Env] in
theorem opensOnly (faithful : Faithful) {key key' nonce plaintext text aad ciphertext : Bytes} (size : nonce.length = 12)
    (sealed : Wallet.aesEncrypt key nonce plaintext aad = .ok ciphertext)
    (opens : Wallet.aesDecrypt key' ciphertext aad = some text) : text = plaintext := by
  simp only [Wallet.aesEncrypt,Outcome.bindOk,Except.ok.injEq] at sealed
  obtain ⟨body,made,rfl⟩ := sealed
  unfold Wallet.aesDecrypt at opens
  split at opens
  · cases opens
  · rw [List.take_left' size,List.drop_left' size] at opens
    exact faithful _ _ _ _ _ _ _ made opens

theorem readsOnly (faithful : Faithful) (saved : wallet.save password draw = .ok data)
    (reads : Wallet.load (.ok data) given = .ok other) : other = wallet := by
  by_cases plain : password = ""
  · subst plain
    rw [plainReads saved given] at reads
    exact (Except.ok.inj reads).symm
  · have encrypted := savedSealed saved
    rw [Wallet.save,if_neg plain,Wallet.encrypt] at saved
    simp only [Outcome.bindOk,Except.ok.injEq] at saved
    obtain ⟨key,-,plaintext,packed,ciphertext,sealed,rfl⟩ := saved
    simp only [Wallet.load,Outcome.bindOk,Except.ok.injEq,exists_eq_left',encrypted] at reads
    rw [if_pos (by simp [Json.truthy,plain])] at reads
    simp only [Outcome.bindOk,raiseIfOk,Wallet.decrypt] at reads
    obtain ⟨-,-,salt,-,params,-,dk,-,address,addressed,body,held,text,opened,taken,read,pk,keyedPk,epk,keyedEpk,-,-,made⟩ := reads
    obtain ⟨addr,rfl,opens⟩ := Wallet.openSealedOpens opened
    cases addressed
    obtain rfl := Except.ok.inj ((Wallet.hexItemHex rfl).symm.trans held)
    obtain rfl := Except.ok.inj ((Wallet.hexItemHex rfl).symm.trans keyedPk)
    obtain rfl := Except.ok.inj ((Wallet.hexItemHex rfl).symm.trans keyedEpk)
    obtain rfl := opensOnly faithful draw.nonceSize sealed opens
    obtain ⟨-,rfl⟩ := (Wallet.secretsRead packed).mp read
    exact (Except.ok.inj made).symm

end Files

section Saves
variable {owner : Address → Wallet} {files files' files'' : Files} {wallet : Wallet} {password : String} {draw : Address → Draw}
  {row : Address × Wallet}

def Kept (owner : Address → Wallet) (files : Files) : Prop := ∀ name, name ∈ files → ∃ wallet password, Own owner wallet ∧
  name = path wallet.address ∧ Holds files wallet password

def Grown (owner : Address → Wallet) (files files' : Files) : Prop := ∀ wallet password, Own owner wallet →
  Holds files wallet password →
    Holds files' wallet password ∧ files'[path wallet.address]? = files[path wallet.address]? ∨
      password = "" ∧ ∃ given, given ≠ "" ∧ Holds files' wallet given

theorem grownRefl (files : Files) : Grown owner files files := fun _ _ _ holds => .inl ⟨holds,rfl⟩

theorem grownTrans (first : Grown owner files files') (next : Grown owner files' files'') : Grown owner files files'' := by
  intro wallet password own holds
  rcases first wallet password own holds with ⟨holds,same⟩ | ⟨plain,given,secret,holds⟩
  · rcases next wallet password own holds with ⟨holds,same'⟩ | sealed
    · exact .inl ⟨holds,same'.trans same⟩
    · exact .inr sealed
  · rcases next wallet given own holds with ⟨holds,-⟩ | ⟨plain',-⟩
    · exact .inr ⟨plain,given,secret,holds⟩
    · exact absurd plain' secret

theorem saveWalletWrites (password : String) (draw : Address → Draw) (files : Files) (row : Address × Wallet) :
    Outcome.stateOf (saveWallet password draw files row) = files ∨
    ∃ data, row.2.save password (draw row.1) = .ok data ∧
      Outcome.stateOf (saveWallet password draw files row) = files.insert (path row.1) (.ok data) ∧
      ∀ file, files[path row.1]? = some file → password ≠ "" ∧ ∃ old encrypted, file = .ok old ∧
        old.get "encrypted" .null = .ok encrypted ∧ encrypted.truthy = false := by
  unfold saveWallet
  split
  · rename_i absent
    split
    · rename_i data saved
      refine .inr ⟨data,saved,rfl,fun file found => ?_⟩
      rw [absent] at found
      cases found
    · exact .inl rfl
  · rename_i file found
    split
    · exact .inl rfl
    · rename_i secret
      split
      · rename_i data resealed
        simp only [reseal,Outcome.bindOk] at resealed
        obtain ⟨old,read,encrypted,field,resealed⟩ := resealed
        split at resealed
        · cases resealed
        · rename_i clear
          obtain ⟨new,saved,made⟩ := (Outcome.bindOk ..).mp resealed
          cases made
          refine .inr ⟨data,saved,rfl,fun other there => ⟨secret,old,encrypted,?_,field,by simpa using clear⟩⟩
          rw [found] at there
          cases there
          cases file with
          | ok data => exact congrArg Except.ok (Except.ok.inj read)
          | error message => cases read
      · exact .inl rfl

theorem resealsNone {old : Json} {drawn fresh : Draw} {given : String} (written : wallet.save given drawn = .ok old)
    (secret : given ≠ "") : reseal password fresh (.ok old) wallet = .ok none := by
  have field := savedSealed written
  simp [reseal,field,bind,Except.bind,Json.truthy,secret]

theorem resealsPlain {old : Json} {drawn fresh : Draw} (written : wallet.save "" drawn = .ok old) :
    reseal password fresh (.ok old) wallet = (wallet.save password fresh).map some := by
  have field := savedSealed written
  simp only [reseal,field,bind,Except.bind,Json.truthy]
  cases wallet.save password fresh <;> rfl

theorem holdsInsert {data : Json} {drawn : Draw} (saved : wallet.save password drawn = .ok data) :
    Holds (files.insert (path wallet.address) (.ok data)) wallet password :=
  ⟨drawn,data,by rw [Std.ExtTreeMap.getElem?_insert_self],saved⟩

omit [Env] [Vault] in
theorem insertOther {name other : String} {file : Except PyExc Json} (different : other ≠ name) :
    (files.insert name file)[other]? = files[other]? := by
  rw [Std.ExtTreeMap.getElem?_insert,if_neg (fun same => different (Std.LawfulEqOrd.eq_of_compare same).symm)]

theorem saveWalletKept (password : String) (draw : Address → Draw) (kept : Kept owner files) (own : Own owner row.2) (addressed : row.2.address = row.1) :
    Kept owner (Outcome.stateOf (saveWallet password draw files row)) ∧
      Grown owner files (Outcome.stateOf (saveWallet password draw files row)) := by
  rcases saveWalletWrites password draw files row with same | ⟨data,saved,same,rewritten⟩
  · rw [same]
    exact ⟨kept,grownRefl files⟩
  · rw [same,← addressed]
    rw [← addressed] at rewritten
    refine ⟨fun name inside => ?_,fun wallet given owned holds => ?_⟩
    · rcases (Dict.memInsert ..).mp inside with rfl | inside
      · exact ⟨row.2,password,own,rfl,holdsInsert saved⟩
      · obtain ⟨wallet,given,owned,rfl,drawn,held,found,written⟩ := kept name inside
        by_cases here : path wallet.address = path row.2.address
        · rw [here]
          exact ⟨row.2,password,own,rfl,holdsInsert saved⟩
        · exact ⟨wallet,given,owned,rfl,drawn,held,(insertOther here).trans found,written⟩
    · by_cases here : path wallet.address = path row.2.address
      · have one : wallet = row.2 := by rw [← owned.one,pathInjective here,own.one]
        obtain ⟨drawn,held,found,written⟩ := holds
        obtain ⟨secret,old,encrypted,read,field,clear⟩ := rewritten _ (here ▸ found)
        cases read
        rw [savedSealed written] at field
        cases field
        have plain : given = "" := by simpa [Json.truthy] using clear
        refine .inr ⟨plain,password,secret,?_⟩
        rw [one]
        exact holdsInsert saved
      · obtain ⟨drawn,held,found,written⟩ := holds
        exact .inl ⟨⟨drawn,held,(insertOther here).trans found,written⟩,insertOther here⟩

theorem saveWalletsKept (password : String) (draw : Address → Draw) {rows : List (Address × Wallet)} (kept : Kept owner files)
    (own : ∀ row ∈ rows, row.2.address = row.1 ∧ Own owner row.2) :
    Kept owner (Outcome.stateOf (saveWallets password draw files rows)) ∧
      Grown owner files (Outcome.stateOf (saveWallets password draw files rows)) := by
  refine Outcome.foldLeaves (fun f => Kept owner f ∧ Grown owner files f) (fun f row inside before => ?_)
    ⟨kept,grownRefl files⟩
  obtain ⟨addressed,owned⟩ := own row inside
  obtain ⟨still,grown⟩ := saveWalletKept password draw before.1 owned addressed
  exact ⟨still,grownTrans before.2 grown⟩

theorem saveWalletLeaves (kept : Kept owner files) (own : Own owner row.2) (addressed : row.2.address = row.1)
    (run : saveWallet password draw files row = .ok files') : ∃ given, Holds files' row.2 given ∧
      (password ≠ "" → (∃ data, row.2.save password (draw row.1) = .ok data) → given ≠ "") := by
  unfold saveWallet at run
  rw [← addressed] at run ⊢
  split at run
  · split at run
    · rename_i data saved
      cases run
      exact ⟨password,holdsInsert saved,fun secret _ => secret⟩
    · cases run
  · rename_i file found
    have inside : path row.2.address ∈ files := by
      by_contra absent
      rw [(Dict.absentIff ..).mpr absent] at found
      cases found
    obtain ⟨wallet,given,owned,same,holds⟩ := kept _ inside
    have one : wallet = row.2 := by rw [← owned.one,← pathInjective same,own.one]
    subst one
    split at run
    · rename_i none
      cases run
      exact ⟨given,holds,fun secret => absurd none secret⟩
    · obtain ⟨drawn,old,there,written⟩ := holds
      rw [there] at found
      cases found
      by_cases plain : given = ""
      · subst plain
        rw [resealsPlain written] at run
        cases sealed : row.2.save password (draw row.2.address) with
        | ok data =>
          rw [sealed] at run
          cases run
          exact ⟨password,holdsInsert sealed,fun secret _ => secret⟩
        | error exception =>
          rw [sealed] at run
          cases run
          refine ⟨"",⟨drawn,old,there,written⟩,fun _ could => ?_⟩
          obtain ⟨data,saved⟩ := could
          cases saved
      · rw [resealsNone written plain] at run
        cases run
        exact ⟨given,⟨drawn,old,there,written⟩,fun _ _ => plain⟩

theorem saveWalletsLeave {rows : List (Address × Wallet)} (kept : Kept owner files)
    (own : ∀ row ∈ rows, row.2.address = row.1 ∧ Own owner row.2) (run : saveWallets password draw files rows = .ok files') :
    ∀ row ∈ rows, ∃ given, Holds files' row.2 given ∧
      (password ≠ "" → (∃ data, row.2.save password (draw row.1) = .ok data) → given ≠ "") := by
  induction rows generalizing files with
  | nil => exact fun row inside => absurd inside List.not_mem_nil
  | cons first rest ih =>
    rw [saveWallets,List.foldlM_cons,Outcome.bindOk] at run
    obtain ⟨mid,turn,later⟩ := run
    obtain ⟨addressed,owned⟩ := own first List.mem_cons_self
    have others : ∀ row ∈ rest, row.2.address = row.1 ∧ Own owner row.2 :=
      fun row inside => own row (List.mem_cons_of_mem _ inside)
    obtain ⟨keptMid,-⟩ : Kept owner mid ∧ Grown owner files mid := by
      have after := saveWalletKept password draw kept owned addressed
      rw [turn] at after
      exact after
    intro row inside
    rcases List.mem_cons.mp inside with rfl | inside
    · obtain ⟨given,holds,sealed⟩ := saveWalletLeaves kept owned addressed turn
      have after := (saveWalletsKept password draw keptMid others).2
      rw [saveWallets,later] at after
      rcases after row.2 given owned holds with ⟨still,-⟩ | ⟨-,new,secret,still⟩
      · exact ⟨given,still,sealed⟩
      · exact ⟨new,still,fun _ _ => secret⟩
    · exact ih keptMid others later row inside

end Saves

section Loads
variable {owner : Address → Wallet} {files : Files} {wallet : Wallet} {wallets : Wallets} {given : String}

def Owned (owner : Address → Wallet) (wallets : Wallets) : Prop := ∀ addr wallet, wallets.get? addr = some wallet →
  wallet.address = addr ∧ Own owner wallet

omit [Vault] in
theorem ownedSet (owned : Owned owner wallets) (own : Own owner wallet) : Owned owner (wallets.set wallet.address wallet) := by
  intro addr other found
  rw [OrderedDict.getSet] at found
  split at found
  · rename_i here
    cases found
    exact ⟨here.symm,own⟩
  · exact owned addr other found

omit [Vault] in
theorem ownedKeeps {other : Wallet} (own : Own owner wallet) (owns : Own owner other)
    (known : wallets.get? wallet.address = some wallet) :
    (wallets.set other.address other).get? wallet.address = some wallet := by
  rw [OrderedDict.getSet]
  split
  · rename_i here
    rw [← own.one,here,owns.one]
  · exact known

theorem keptReads (faithful : Faithful) (kept : Kept owner files) {name : String} {file : Except PyExc Json}
    (found : files[name]? = some file) (reads : Wallet.load file given = .ok wallet) : Own owner wallet := by
  have inside : name ∈ files := by
    by_contra absent
    rw [(Dict.absentIff ..).mpr absent] at found
    cases found
  obtain ⟨saver,password,own,rfl,drawn,data,held,saved⟩ := kept name inside
  rw [held] at found
  cases found
  rw [readsOnly faithful saved reads]
  exact own

theorem loadWalletOwned (faithful : Faithful) (kept : Kept owner files) (owned : Owned owner wallets) (name : String) :
    Owned owner (loadWallet given files wallets name) := by
  unfold loadWallet
  split
  · exact owned
  · split
    · exact owned
    · rename_i file found
      split
      · rename_i loaded reads
        exact ownedSet owned (keptReads faithful kept found reads)
      · exact owned

theorem loadWalletKeeps (faithful : Faithful) (kept : Kept owner files) (own : Own owner wallet)
    (known : wallets.get? wallet.address = some wallet) (name : String) :
    (loadWallet given files wallets name).get? wallet.address = some wallet := by
  unfold loadWallet
  split
  · exact known
  · split
    · exact known
    · rename_i file found
      split
      · rename_i loaded reads
        exact ownedKeeps own (keptReads faithful kept found reads) known
      · exact known

theorem loadWalletReads {password : String} (own : Own owner wallet) (holds : Holds files wallet password)
    (opens : password = "" ∨ given = password) (wallets : Wallets) :
    (loadWallet given files wallets (path wallet.address)).get? wallet.address = some wallet := by
  obtain ⟨drawn,data,found,saved⟩ := holds
  have suffix : ".json".toList <:+ (path wallet.address).toList := by
    rw [path,String.toList_append]
    exact List.suffix_append ..
  rw [loadWallet,if_neg (not_not.mpr suffix),found]
  simp only [savedReads own.keyed saved opens]
  rw [OrderedDict.getSet,if_pos rfl]

theorem foldOwned (faithful : Faithful) (kept : Kept owner files) (given : String) (names : List String) (owned : Owned owner wallets) :
    Owned owner (names.foldl (loadWallet given files) wallets) := by
  induction names generalizing wallets with
  | nil => exact owned
  | cons name rest ih => exact ih (loadWalletOwned faithful kept owned name)

theorem foldHas (faithful : Faithful) (kept : Kept owner files) {password : String} (own : Own owner wallet)
    (holds : Holds files wallet password) (opens : password = "" ∨ given = password) (names : List String)
    (due : wallets.get? wallet.address = some wallet ∨ path wallet.address ∈ names) :
    (names.foldl (loadWallet given files) wallets).get? wallet.address = some wallet := by
  induction names generalizing wallets with
  | nil => exact due.resolve_right List.not_mem_nil
  | cons name rest ih =>
    rw [List.foldl_cons]
    refine ih ?_
    rcases due with known | listed
    · exact .inl (loadWalletKeeps faithful kept own known name)
    · rcases List.mem_cons.mp listed with rfl | later
      · exact .inl (loadWalletReads own holds opens wallets)
      · exact .inr later

end Loads

section Worlds
variable {owner : Address → Wallet} {w w' : World} {wallet : Wallet} {password : String}

structure Sound (owner : Address → Wallet) (w : World) : Prop where
  files : Kept owner w.files
  memory : ∀ node, w.node = some node → Owned owner node.wallets

omit [Vault] in
theorem emptyOwned : Owned owner .empty := fun _ _ found => absurd found (by simp [OrderedDict.get?,OrderedDict.empty])

theorem bootedOwned (faithful : Faithful) {files : Files} (kept : Kept owner files) (given : String) (names : List String)
    {validator : Option Wallet} (own : ∀ v, validator = some v → Own owner v) :
    Owned owner (booted given files names validator) := by
  have loaded := foldOwned faithful kept given names emptyOwned
  cases validator with
  | none => exact loaded
  | some v => exact ownedSet loaded (own v rfl)

omit [Vault] in
theorem rowsOwned {wallets : Wallets} (owned : Owned owner wallets) : ∀ row ∈ wallets.rows,
    row.2.address = row.1 ∧ Own owner row.2 := fun row inside => owned row.1 row.2 ((OrderedDict.getIff ..).mpr inside)

theorem stepSound (faithful : Faithful) (sound : Sound owner w) (step : Step owner w w') :
    Sound owner w' ∧ Grown owner w.files w'.files := by
  cases step with
  | start down given names validator listing own =>
    refine ⟨⟨sound.files,fun node up => ?_⟩,grownRefl _⟩
    cases up
    exact bootedOwned faithful sound.files given names own
  | @add node up added own =>
    refine ⟨⟨sound.files,fun other up' => ?_⟩,grownRefl _⟩
    cases up'
    exact ownedSet (sound.memory node up) own
  | @save node up draw =>
    obtain ⟨kept,grown⟩ := saveWalletsKept node.password draw sound.files
      (rowsOwned (sound.memory node up))
    exact ⟨⟨kept,sound.memory⟩,grown⟩
  | @crash node up draw n =>
    obtain ⟨kept,grown⟩ := saveWalletsKept node.password draw sound.files
      (fun row inside => rowsOwned (sound.memory node up) row (List.mem_of_mem_take inside))
    exact ⟨⟨kept,fun node up => by cases up⟩,grown⟩

theorem reachedSound (faithful : Faithful) (reached : Reached owner w) : Sound owner w := by
  induction reached with
  | refl => exact ⟨fun name inside => absurd inside Std.ExtTreeMap.not_mem_empty,fun node up => by cases up⟩
  | tail _ step ih => exact (stepSound faithful ih step).1

theorem runGrown (faithful : Faithful) (sound : Sound owner w) (run : Relation.ReflTransGen (Step owner) w w') :
    Sound owner w' ∧ Grown owner w.files w'.files := by
  induction run with
  | refl => exact ⟨sound,grownRefl _⟩
  | tail _ step ih =>
    obtain ⟨sound',grown⟩ := stepSound faithful ih.1 step
    exact ⟨sound',grownTrans ih.2 grown⟩

/- A wallet that was once written is never lost: whatever the node goes through, under whatever passwords, its file
stays as it is or, in the clear, is sealed, and a start with the password that opens it has the wallet in memory. -/
theorem walletsKept (faithful : Faithful) (reached : Reached owner w) (run : Relation.ReflTransGen (Step owner) w w')
    (own : Own owner wallet) (holds : Holds w.files wallet password) : ∃ given,
    (w'.files[path wallet.address]? = w.files[path wallet.address]? ∧ given = password ∨ password = "" ∧ given ≠ "") ∧
    Holds w'.files wallet given ∧ ∀ typed, given = "" ∨ typed = given → ∀ names validator, (∀ name, name ∈ names ↔ name ∈ w'.files) →
      (∀ v, validator = some v → Own owner v) →
        (booted typed w'.files names validator).get? wallet.address = some wallet := by
  obtain ⟨sound,grown⟩ := runGrown faithful (reachedSound faithful reached) run
  have found : ∀ given, Holds w'.files wallet given → ∀ typed, given = "" ∨ typed = given → ∀ names validator,
      (∀ name, name ∈ names ↔ name ∈ w'.files) → (∀ v, validator = some v → Own owner v) →
        (booted typed w'.files names validator).get? wallet.address = some wallet := by
    intro given holds typed opens names validator listing owns
    have there : path wallet.address ∈ names := by
      obtain ⟨drawn,data,found,-⟩ := holds
      refine (listing _).mpr (by_contra fun absent => ?_)
      rw [(Dict.absentIff ..).mpr absent] at found
      cases found
    have loaded : (loadWallets typed w'.files names).get? wallet.address = some wallet :=
      foldHas faithful sound.files own holds opens names (.inr there)
    cases validator with
    | none => exact loaded
    | some v => exact ownedKeeps own (owns v rfl) loaded
  rcases grown wallet password own holds with ⟨still,same⟩ | ⟨plain,given,secret,sealed⟩
  · exact ⟨password,.inl ⟨same,rfl⟩,still,found password still⟩
  · exact ⟨given,.inr ⟨plain,secret⟩,sealed,found given sealed⟩

theorem walletsSaved (faithful : Faithful) (reached : Reached owner w) {node : Node} (up : w.node = some node)
    {draw : Address → Draw} {files : Files} (run : saveWallets node.password draw w.files node.wallets.rows = .ok files)
    {addr : Address} (known : node.wallets.get? addr = some wallet) : ∃ password, Holds files wallet password ∧
      (node.password ≠ "" → (∃ data, wallet.save node.password (draw addr) = .ok data) → password ≠ "") := by
  have sound := reachedSound faithful reached
  have listed : (addr,wallet) ∈ node.wallets.rows := (OrderedDict.getIff ..).mp known
  have owned := rowsOwned (sound.memory node up)
  exact saveWalletsLeave sound.files owned run (addr,wallet) listed

end Worlds

end Laws

end QbitNetwork.WalletDirectory

namespace QbitNetwork.Devnet
open WalletDirectory (Files World Own Holds)

section Housed
attribute [local instance] legacy vault

theorem vaultFaithful : WalletDirectory.Faithful := by
  intro key key' nonce data data' aad sealed made opens
  cases made
  have size : (data ++ sealTag key nonce data aad).length - 16 = data.length := by
    rw [List.length_append,sealTagLength,Nat.add_sub_cancel]
  have held : (if (data ++ sealTag key nonce data aad).drop ((data ++ sealTag key nonce data aad).length - 16) =
      sealTag key' nonce ((data ++ sealTag key nonce data aad).take ((data ++ sealTag key nonce data aad).length - 16)) aad then
    some ((data ++ sealTag key nonce data aad).take ((data ++ sealTag key nonce data aad).length - 16)) else none) =
      some data' := opens
  rw [size,List.take_left' rfl] at held
  split at held
  · exact (Option.some.inj held).symm
  · cases held

theorem keeperOwn : Own (fun _ => keeper) keeper := ⟨rfl,keeperKeyed⟩

def unsaved : World := ⟨∅,some ⟨"",OrderedDict.empty.set keeper.address keeper⟩⟩

theorem reachedUnsaved : WalletDirectory.Reached (fun _ => keeper) unsaved := by
  have listing : ∀ name, name ∈ ([] : List String) ↔ name ∈ (∅ : Files) := by simp
  have started : WalletDirectory.Step (fun _ => keeper) {} ⟨∅,some ⟨"",.empty⟩⟩ :=
    .start rfl "" [] none listing (fun wallet owned => by cases owned)
  have up : World.node ⟨∅,some ⟨"",.empty⟩⟩ = some ⟨"",.empty⟩ := rfl
  have added : WalletDirectory.Step (fun _ => keeper) ⟨∅,some ⟨"",.empty⟩⟩ unsaved := .add up keeper keeperOwn
  exact (Relation.ReflTransGen.single started).tail added

def plainFile : Json := .obj (("encrypted",.bool false) :: keeper.toDict)

def plainFiles : Files := (∅ : Files).insert (WalletDirectory.path keeper.address) (.ok plainFile)

theorem unsavedSaves : WalletDirectory.saveWallets "" (fun _ => draw) ∅
    (OrderedDict.empty.set keeper.address keeper).rows = .ok plainFiles := by
  have rows : (OrderedDict.empty.set keeper.address keeper).rows = [(keeper.address,keeper)] := rfl
  rw [rows,WalletDirectory.saveWallets,List.foldlM_cons,Outcome.bindOk]
  refine ⟨plainFiles,?_,rfl⟩
  simp [WalletDirectory.saveWallet,Wallet.save,plainFiles,plainFile]

theorem walletsSavedUnsaved : ∃ password, Holds plainFiles keeper password := by
  have known : (OrderedDict.empty.set keeper.address keeper).get? keeper.address = some keeper := by
    rw [OrderedDict.getSet,if_pos rfl]
  obtain ⟨password,holds,-⟩ := WalletDirectory.walletsSaved vaultFaithful reachedUnsaved rfl unsavedSaves known
  exact ⟨password,holds⟩

def stored : World := ⟨plainFiles,none⟩

theorem walletsKeptStored : ∃ given, (WalletDirectory.booted given plainFiles [WalletDirectory.path keeper.address] none).get?
    keeper.address = some keeper := by
  have saved : WalletDirectory.Step (fun _ => keeper) unsaved ⟨plainFiles,unsaved.node⟩ := by
    have step : WalletDirectory.Step (fun _ => keeper) unsaved _ := .save rfl (fun _ => draw)
    rwa [show unsaved.files = ∅ from rfl,unsavedSaves] at step
  have reached := reachedUnsaved.tail saved
  have down : WalletDirectory.Step (fun _ => keeper) ⟨plainFiles,unsaved.node⟩ stored := .crash rfl (fun _ => draw) 0
  have holds : Holds plainFiles keeper "" := ⟨draw,plainFile,by simp [plainFiles],rfl⟩
  obtain ⟨given,-,-,found⟩ := WalletDirectory.walletsKept vaultFaithful reached (.single down) keeperOwn holds
  refine ⟨given,found given (.inr rfl) _ none (fun name => ?_) (fun wallet owned => by cases owned)⟩
  rw [List.mem_singleton,show stored.files = plainFiles from rfl,plainFiles,Dict.memInsert]
  simp

end Housed

end QbitNetwork.Devnet
