import Albus.Circuits.ExpirySoundness
import Albus.Core.CredentialTree
import Albus.Core.SmtInclusion
import Albus.Lib.Run

/-! # Claims and their names

    A circuit receives a claim `X` with a key `XKey` and checks that the credential's
    tree holds the value under the key.  Nothing in the circuit says which name the
    key stands for: the value is that of the claim at the position `XKey`, whatever
    its name (`named_claims`), and a holder may prove one claim of a credential for
    another (`named_claims_fails`). -/

namespace Albus.Circuits

open Albus.Lib Albus.Core

/-! ## The tree verifier -/

/-- The siblings that count: the others are trailing zeros. -/
def trimmed (siblings : List F) : List ℕ :=
  (siblings.map ZMod.val).rdropWhile (· = 0)

/-- **WHAT THE TREE VERIFIER IS RELIED ON FOR.**  An enabled inclusion recomputes
    the root from the leaf, along the bits of the key. -/
structure SmtInclusion (lib : Circomlib) (permute : List ℕ → ℕ) : Prop where
  root : ∀ nLevels i, i.enabled = 1 → i.fnc = 0 → lib.smtVerifier nLevels i →
    i.root.val = climb permute i.key.val 0
      (trimmed ((List.range nLevels).map i.siblings))
      (SMT.hash1 permute i.key.val i.value.val)

/-- What is hashed for the inclusions of some claims. -/
def inclusionInputs (permute : List ℕ → ℕ) (nLevels : ℕ) (claims : List (String × Claim)) :
    List (List ℕ) :=
  claims.flatMap fun p =>
    pathInputs permute p.2.key.val p.2.value.val
      (trimmed ((List.range nLevels).map p.2.proof))

/-! ## The claims of the templates -/

/-- The claims of a template, under the names that the inputs are filled from. -/
def AgeProof.claims (x : AgeProof.Inputs) : List (String × Claim) :=
  [("birthDate", x.birthDate), ("meta.validUntil", x.metaValidUntil)]

def Kyc.claims (x : Kyc.Inputs) : List (String × Claim) :=
  [("givenName", x.givenName), ("familyName", x.familyName), ("birthDate", x.birthDate),
    ("country", x.country), ("docNumber", x.docNumber),
    ("meta.validUntil", x.metaValidUntil)]

def ResidenceProof.claims (x : ResidenceProof.Inputs) : List (String × Claim) :=
  [("country", x.country), ("meta.validUntil", x.metaValidUntil)]

/-- The value of `c` is the one at the position `c.key` of the credential's claims;
    it is the value stored under `name` where that is the position of `name`. -/
structure AtPosition (permute : List ℕ → ℕ) (unixTs : String → String)
    (credential : W3CCredential) (tree : ClaimsTree) (name : String) (c : Claim) :
    Prop where
  position : ∃ claims name' text value, credential.claims unixTs = .ok claims ∧
    claims[c.key.val]? = some (name', text) ∧
    ClaimsTree.encodeValue permute text = .ok value ∧ c.value = (value : F)
  named : tree.encodeKey name = c.key.val → tree.Stores name c.value.val

section

variable {lib : Circomlib} {permute : List ℕ → ℕ} {unixTs : String → String}
  {credential : W3CCredential} {depth : Option ℕ} {tree : ClaimsTree}

/-- **AN INCLUSION IS AN INCLUSION AT A POSITION.** -/
theorem MerkleProof.Constraints.atPosition (hsmt : SmtInclusion lib permute)
    (hok : createCredentialTree permute unixTs credential depth = .ok tree)
    {nLevels : ℕ} {root : F} {claims : List (String × Claim)}
    (hcf : CollisionFree permute (credentialHashed permute unixTs credential depth ++
      inclusionInputs permute nLevels claims))
    (h : MerkleProof.Constraints lib nLevels root (claims.map Prod.snd))
    (hroot : root.val = tree.root) :
    ∀ p ∈ claims, AtPosition permute unixTs credential tree p.1 p.2 := by
  intro p hp
  obtain ⟨stored, t, hclaims, hnodup, hbuilt⟩ :=
    createCredentialTree_built hcf (fun x hx => List.mem_append_left _ hx) hok
  have hincl := hsmt.root nLevels _ rfl rfl (h p.2 (List.mem_map_of_mem hp))
  have hdigest : Tree.digest permute t = climb permute p.2.key.val 0
      (trimmed ((List.range nLevels).map p.2.proof))
      (SMT.hash1 permute p.2.key.val p.2.value.val) :=
    hbuilt.reflects.root.symm.trans (hroot.symm.trans hincl)
  have hpath : ∀ x ∈ pathInputs permute p.2.key.val p.2.value.val
      (trimmed ((List.range nLevels).map p.2.proof)),
      x ∈ credentialHashed permute unixTs credential depth ++
        inclusionInputs permute nLevels claims :=
    fun x hx => List.mem_append_right _ (List.mem_flatMap.mpr ⟨p, hp, hx⟩)
  have hmem := climb_sound hcf hbuilt.reflects.hashed (hpath _ List.mem_cons_self)
    (fun x hx => hpath x (List.mem_cons_of_mem _ hx)) hdigest
  obtain ⟨name, text, value, hget, henc, hvalue⟩ := (hbuilt.mem _ _).mp hmem
  have hcast : p.2.value = (value : F) := by
    rw [← ZMod.natCast_zmod_val p.2.value, hvalue, F1Field.e_natCast]
    exact ZMod.natCast_mod value bn254r
  refine ⟨⟨stored, name, text, value, hclaims, hget, henc, hcast⟩, ?_⟩
  intro hkey
  obtain ⟨hname, hstores⟩ := hbuilt.stores hcf hnodup hget henc
  -- one name has this position
  have hsame : p.1 = name := tree.encodeKey_inj hkey hname
  rw [hsame, hvalue]
  exact hstores

/-- **CLAIMS ARE BOUND TO THEIR POSITIONS.**  Whatever assignment satisfies a proof
    for the root of a credential's tree, each claim it uses has the value at the
    position its key gives, which is the named claim's value only where the key is
    the name's position. -/
theorem named_claims (hsmt : SmtInclusion lib permute)
    (hok : createCredentialTree permute unixTs credential depth = .ok tree) :
    (∀ nLevels shamirN shamirK x s,
      AgeProof.Constraints lib nLevels shamirN shamirK x s →
      x.credentialRoot.val = tree.root →
      CollisionFree permute (credentialHashed permute unixTs credential depth ++
        inclusionInputs permute nLevels (AgeProof.claims x)) →
      ∀ p ∈ AgeProof.claims x, AtPosition permute unixTs credential tree p.1 p.2) ∧
    (∀ nLevels lookupN shamirN shamirK x s,
      Kyc.Constraints lib nLevels lookupN shamirN shamirK x s →
      x.credentialRoot.val = tree.root →
      CollisionFree permute (credentialHashed permute unixTs credential depth ++
        inclusionInputs permute nLevels (Kyc.claims x)) →
      ∀ p ∈ Kyc.claims x, AtPosition permute unixTs credential tree p.1 p.2) ∧
    (∀ nLevels lookupN x s, ResidenceProof.Constraints lib nLevels lookupN x s →
      x.credentialRoot.val = tree.root →
      CollisionFree permute (credentialHashed permute unixTs credential depth ++
        inclusionInputs permute nLevels (ResidenceProof.claims x)) →
      ∀ p ∈ ResidenceProof.claims x,
        AtPosition permute unixTs credential tree p.1 p.2) := by
  refine ⟨?_, ?_, ?_⟩
  · intro nLevels shamirN shamirK x s h hroot hcf
    have hmtp : MerkleProof.Constraints lib nLevels x.credentialRoot
        ((AgeProof.claims x).map Prod.snd) := h.mtp
    exact hmtp.atPosition hsmt hok hcf hroot
  · intro nLevels lookupN shamirN shamirK x s h hroot hcf
    have hmtp : MerkleProof.Constraints lib nLevels x.credentialRoot
        ((Kyc.claims x).map Prod.snd) := h.mtp
    exact hmtp.atPosition hsmt hok hcf hroot
  · intro nLevels lookupN x s h hroot hcf
    have hmtp : MerkleProof.Constraints lib nLevels x.credentialRoot
        ((ResidenceProof.claims x).map Prod.snd) := h.mtp
    exact hmtp.atPosition hsmt hok hcf hroot

end

/-! ## A credential, proved under another name -/

namespace NamedSample

def leaf0 : ℕ :=
  12544280997571204952837697249024702031927098924992923783246928216046792555995

def leaf1 : ℕ :=
  7498214338380457120548259073797844692941605812140773498561149372974187363259

def node0 : ℕ :=
  8876944409454430557000414610663284467977601953130606846227112366554515122913

def leaf2 : ℕ :=
  5160528386536230424779047076971812559128844461881379948197765603008189259229

def node1 : ℕ :=
  5819085574815812708200359700294054640111677589200149299967748230925861034636

def node2 : ℕ :=
  12663430759091601322222008549892465089262616053680013794331135349598120568937

def leaf3 : ℕ :=
  7852501285193903998010627912688149576950041269464665253032514215075915252902

def node3 : ℕ :=
  17583558983698918870392268234935588763775094569617277606429976611754549240420

def node4 : ℕ :=
  15703464221054052118484571993615787351572495269710499881079983572554598444995

def leaf4 : ℕ :=
  6171817341674271800201683665463967213845156317364204370373101343857977847626

def node5 : ℕ :=
  20950684088744134793708982241403995555018594297596393231160681075018628112562

def node6 : ℕ :=
  5125065976123136521050406306582069851680191792405482104936687181719318868871

def node7 : ℕ :=
  8495318040958818399030516698856871943891760558433893659171707335620208637676

def leaf5 : ℕ :=
  20448906389520165868960963791722105112976798288524824736339221333498900287238

def node8 : ℕ :=
  21403917734709106885859326123124456300103767063342526095154974716541006578967

def node9 : ℕ :=
  15446753169790234169731118814369285095631352240032335174677808131918059542481

def node10 : ℕ :=
  11540989120791671329408591475224048771247931029381218892546843477574720741758

def leaf6 : ℕ :=
  13116395317153945750256290596666055003899433781004202162379020816368061554750

def node11 : ℕ :=
  6266535792078286433374549912229232170783188733618499678732020863888768006625

def node12 : ℕ :=
  15357445154965558551108079378484611378432932817291415611857262668841276614679

def node13 : ℕ :=
  7554201440938858969348533783119828858362924701344397818848577911808286986660

/-- Poseidon on the nodes of the sample credential's tree. -/
def table : List (List ℕ × ℕ) :=
  [([0, 237007312241612133576753, 1], leaf0), ([1, 21843, 1], leaf1),
    ([leaf0, leaf1], node0), ([2, 17477, 1], leaf2), ([leaf0, leaf2], node1),
    ([node1, leaf1], node2), ([3, 2036590936611676280696053244978546, 1], leaf3),
    ([leaf1, leaf3], node3), ([node1, node3], node4), ([4, 1953658213, 1], leaf4),
    ([leaf0, leaf4], node5), ([node5, leaf2], node6), ([node6, node3], node7),
    ([5, 232396202687235500290096, 1], leaf5), ([leaf1, leaf5], node8),
    ([node8, leaf3], node9), ([node6, node9], node10), ([6, 48, 1], leaf6),
    ([leaf2, leaf6], node11), ([node5, node11], node12), ([node12, node9], node13)]

def poseidon (inputs : List ℕ) : ℕ := (table.lookup inputs).getD 0

/-- The one date of the credential. -/
def unixTs (_ : String) : String := "1690000000"

/-- The credential whose tree is that of `SampleCredential`. -/
def credential : W3CCredential where
  issuer := .text "did:web:issuer"
  validUntil := some "2023-07-22T04:26:40Z"
  validFrom := none
  issuanceDate := none
  type := ["VerifiableCredential", "AlbusCredential"]
  credentialSubject := .cons "birthDate" (.scalar "2010-05-01")
    (.cons "country" (.scalar "US") (.cons "citizenship" (.scalar "DE") .nil))

def tree : ClaimsTree :=
  match createCredentialTree poseidon unixTs credential none with
  | .ok tree => tree
  | .error _ => ClaimsTree.new none

/-- What the table computes: the tree is built once for all of it. -/
theorem computed :
    (createCredentialTree poseidon unixTs credential none).isOk = true ∧
      (∀ r ∈ SampleCredential.table.smtInclusion,
        r.2.2.2.val = climb poseidon r.2.1.val 0 (trimmed r.1)
          (SMT.hash1 poseidon r.2.1.val r.2.2.1.val)) ∧
      (∀ country ∈ [SampleCredential.country, SampleCredential.citizenship],
        CollisionFree poseidon (credentialHashed poseidon unixTs credential none ++
          inclusionInputs poseidon 6
            [("country", country), ("meta.validUntil", SampleCredential.metaValidUntil)])) ∧
      SampleCredential.root.val = tree.root ∧
      tree.Stores "country" 0x5553 ∧ tree.Stores "citizenship" 0x4445 ∧
      ¬ tree.Stores "country" SampleCredential.citizenship.value.val ∧
      InWord SampleCredential.country.value (0x5553 : F).val ∧
      InWord SampleCredential.citizenship.value (0x4445 : F).val := by
  decide +kernel

theorem tree_ok : createCredentialTree poseidon unixTs credential none = .ok tree :=
  ok_of_isOk computed.1 (ClaimsTree.new none)

/-- The rows of the sample's table recompute the root. -/
theorem smtInclusion {table' : CryptoTable}
    (h : table'.smtInclusion = SampleCredential.table.smtInclusion) :
    SmtInclusion (.reference table') poseidon where
  root := by
    obtain ⟨-, hrows, -⟩ := computed
    rintro nLevels i - - ⟨-, -, hmem⟩
    rw [h] at hmem
    exact hrows _ hmem

/-- The residence is proved from the claim given as `country`. -/
def inputs (country : Claim) (lookup : F) : ResidenceProof.Inputs where
  timestamp := (1680000000 : ℕ)
  selectionMode := 1
  countryLookup _ := lookup
  country := country
  metaValidUntil := SampleCredential.metaValidUntil
  credentialRoot := SampleCredential.root
  issuer := SampleCredential.issuer

theorem exists_constraints {country : Claim} {lookup : F}
    (hc : country = SampleCredential.country ∨ country = SampleCredential.citizenship)
    (hin : InWord country.value lookup.val) :
    ∃ s, ResidenceProof.Constraints (.reference SampleCredential.table) 6 2
      (inputs country lookup) s := by
  have hlib := Circomlib.reference_arithmetic SampleCredential.table
  have halias : ∀ i < 2, Alias lookup ((fun _ => lookup.val) i) := fun _ _ => alias_val _
  obtain ⟨e, he⟩ := ExpiryCheck.exists_constraints hlib
    (by decide +kernel : (1680000000 : F).val < 2 ^ 32)
    SampleCredential.metaValidUntil.value
  obtain ⟨c, hcountry⟩ := (CountryProof.exists_constraints hlib (by norm_num)
    country.value halias).1 ⟨0, by norm_num, hin⟩
  refine ⟨⟨e, c⟩, ⟨he, SampleCredential.mtp rfl (Or.inr rfl) ?_,
    List.mem_cons_self, hcountry⟩⟩
  intro d hd
  rcases List.mem_cons.mp hd with rfl | hd
  · rcases hc with hc | hc <;> simp [hc, SampleCredential.claims]
  · simp [inputs, SampleCredential.claims, List.mem_singleton.mp hd]

/-- No two nodes of the tree, nor of the inclusions of either claim, collide. -/
theorem collisionFree :
    (∀ country ∈ [SampleCredential.country, SampleCredential.citizenship], ∀ lookup,
      CollisionFree poseidon (credentialHashed poseidon unixTs credential none ++
        inclusionInputs poseidon 6 (ResidenceProof.claims (inputs country lookup)))) := by
  intro country hc lookup
  obtain ⟨-, -, hcollide, -⟩ := computed
  exact hcollide country hc

end NamedSample

section Sample

open NamedSample

/-- The credential of a holder in `US`, proved honestly. -/
theorem named_claims_sample :
    ∃ s, ResidenceProof.Constraints (.reference SampleCredential.table) 6 2
        (inputs SampleCredential.country 0x5553) s ∧
      ∀ p ∈ ResidenceProof.claims (inputs SampleCredential.country 0x5553),
        AtPosition poseidon unixTs credential tree p.1 p.2 := by
  obtain ⟨-, -, -, hroot, -, -, -, hin, -⟩ := computed
  obtain ⟨s, hs⟩ := exists_constraints (Or.inl rfl) hin
  exact ⟨s, hs, (named_claims (smtInclusion rfl) tree_ok).2.2 6 2 _ s hs hroot
    (collisionFree _ List.mem_cons_self _)⟩

/-- **A HOLDER'S CITIZENSHIP PASSES FOR THE COUNTRY.**  The issuer signed the root of
    a credential with country `US`; an assignment that satisfies `ResidenceProof` for
    it uses `DE` as the country, the value of another claim. -/
theorem named_claims_fails :
    ∃ x : ResidenceProof.Inputs,
      createCredentialTree poseidon unixTs credential none = .ok tree ∧
      SmtInclusion (.reference SampleCredential.table) poseidon ∧
      (∃ s, ResidenceProof.Constraints (.reference SampleCredential.table) 6 2 x s) ∧
      x.credentialRoot.val = tree.root ∧
      CollisionFree poseidon (credentialHashed poseidon unixTs credential none ++
        inclusionInputs poseidon 6 (ResidenceProof.claims x)) ∧
      SampleCredential.table.eddsa = [x.issuer.eddsa x.credentialRoot] ∧
      tree.Stores "country" 0x5553 ∧
      tree.Stores "citizenship" 0x4445 ∧
      x.country.value = 0x4445 ∧ ¬ tree.Stores "country" x.country.value.val := by
  have hmem : SampleCredential.citizenship ∈
      [SampleCredential.country, SampleCredential.citizenship] :=
    List.mem_cons_of_mem _ List.mem_cons_self
  obtain ⟨-, -, -, hroot, hcountry, hcitizenship, hother, -, hin⟩ := computed
  exact ⟨inputs SampleCredential.citizenship 0x4445, tree_ok, smtInclusion rfl,
    exists_constraints (Or.inr rfl) hin, hroot, collisionFree _ hmem _, rfl, hcountry,
    hcitizenship, rfl, hother⟩

end Sample

end Albus.Circuits
