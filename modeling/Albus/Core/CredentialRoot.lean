import Albus.Core.CredentialTree

/-! # What a credential's root commits to

    Two credentials have one root when, and only when, their claims have the same
    values in the same order (`credential_root_iff`).  A claim's name enters no hash,
    and its key is the position of its name: renaming the claims leaves the root as it
    is, and reordering the properties of a subject changes it
    (`credential_root_fails`). -/

namespace Albus.Core

open Albus.Lib

/-! ## The committed values -/

/-- A claim's value, as the tree holds it. -/
def ClaimsTree.element (permute : List ℕ → ℕ) (text : String) : Except TreeError ℕ :=
  (encodeValue permute text).map fun value => F1Field.e value

/-- The values of a credential's claims, in the order they are added. -/
def W3CCredential.values (permute : List ℕ → ℕ) (unixTs : String → String)
    (credential : W3CCredential) : Except TreeError (List ℕ) := do
  let claims ← credential.claims unixTs
  claims.mapM fun p => ClaimsTree.element permute p.2

section Root

variable {permute : List ℕ → ℕ} {inputs : List (List ℕ)} {unixTs : String → String}

namespace ClaimsTree

theorem element_eq_ok_iff {text : String} {v : ℕ} :
    element permute text = .ok v ↔
      ∃ value, encodeValue permute text = .ok value ∧ v = F1Field.e value := by
  rw [element]
  cases encodeValue permute text with
  | error e => simp [Except.map]
  | ok value => simp [Except.map, eq_comm]

/-- When every claim has a value, so has the list, position by position. -/
theorem exists_elements {claims : List (String × String)}
    (h : ∀ p ∈ claims, ∃ v, element permute p.2 = .ok v) :
    ∃ values, claims.mapM (fun p => element permute p.2) = .ok values ∧
      List.Forall₂ (fun p v => element permute p.2 = .ok v) claims values := by
  induction claims with
  | nil => exact ⟨[], rfl, .nil⟩
  | cons p claims ih =>
      obtain ⟨v, hv⟩ := h p List.mem_cons_self
      obtain ⟨values, hvalues, hall⟩ := ih fun q hq => h q (List.mem_cons_of_mem _ hq)
      refine ⟨v :: values, ?_, .cons hv hall⟩
      rw [List.mapM_cons, hv, hvalues]
      rfl

/-- A built tree holds the values of its claims, each under its position. -/
theorem Built.exists_values {tree : ClaimsTree} {claims : List (String × String)}
    {t : Tree} (h : Built permute inputs tree claims t) :
    ∃ values, claims.mapM (fun p => element permute p.2) = .ok values ∧
      ∀ k v, Trie.Mem k v t ↔ values[k]? = some v := by
  have helement : ∀ p ∈ claims, ∃ v, element permute p.2 = .ok v := by
    intro p hp
    obtain ⟨value, hvalue⟩ := h.encoded p hp
    exact ⟨_, element_eq_ok_iff.mpr ⟨value, hvalue, rfl⟩⟩
  obtain ⟨values, hvalues, hall⟩ := exists_elements helement
  refine ⟨values, hvalues, fun k v => ?_⟩
  rw [h.mem]
  constructor
  · rintro ⟨name, text, value, hk, henc⟩
    obtain ⟨hlt, hget⟩ := List.getElem?_eq_some_iff.mp hk
    have hlt' : k < values.length := hall.length_eq ▸ hlt
    have hval := hall.get hlt hlt'
    simp only [List.get_eq_getElem, hget] at hval
    have hv := element_eq_ok_iff.mpr ⟨value, henc⟩
    rw [List.getElem?_eq_getElem hlt', Except.ok.inj (hval.symm.trans hv)]
  · intro hk
    obtain ⟨hlt', rfl⟩ := List.getElem?_eq_some_iff.mp hk
    have hlt : k < claims.length := hall.length_eq ▸ hlt'
    obtain ⟨value, henc⟩ := element_eq_ok_iff.mp (hall.get hlt hlt')
    exact ⟨_, _, value, List.getElem?_eq_getElem hlt, henc⟩

end ClaimsTree

theorem createCredentialTree_values {credential : W3CCredential} {depth : Option ℕ}
    {tree : ClaimsTree} (hcf : CollisionFree permute inputs)
    (hin : ∀ x ∈ credentialHashed permute unixTs credential depth, x ∈ inputs)
    (hok : createCredentialTree permute unixTs credential depth = .ok tree) :
    ∃ values t, credential.values permute unixTs = .ok values ∧
      Reflects permute inputs tree.smt t ∧
      ∀ k v, Trie.Mem k v t ↔ values[k]? = some v := by
  obtain ⟨claims, t, hclaims, -, hbuilt⟩ := createCredentialTree_built hcf hin hok
  obtain ⟨values, hvalues, hmem⟩ := hbuilt.exists_values
  refine ⟨values, t, ?_, hbuilt.reflects, hmem⟩
  rw [W3CCredential.values, hclaims]
  exact hvalues

/-- **THE ROOT IS THE ORDERED VALUES.** -/
theorem credential_root_iff {credential credential' : W3CCredential}
    {depth depth' : Option ℕ} {tree tree' : ClaimsTree}
    (hcf : CollisionFree permute (credentialHashed permute unixTs credential depth ++
      credentialHashed permute unixTs credential' depth'))
    (hok : createCredentialTree permute unixTs credential depth = .ok tree)
    (hok' : createCredentialTree permute unixTs credential' depth' = .ok tree') :
    tree.root = tree'.root ↔
      credential.values permute unixTs = credential'.values permute unixTs := by
  obtain ⟨values, t, hvalues, ht, hmem⟩ :=
    createCredentialTree_values hcf (fun _ hx => List.mem_append_left _ hx) hok
  obtain ⟨values', t', hvalues', ht', hmem'⟩ :=
    createCredentialTree_values hcf (fun _ hx => List.mem_append_right _ hx) hok'
  rw [hvalues, hvalues', Except.ok.injEq]
  constructor
  · intro hroot
    have hdigest : Tree.digest permute t = Tree.digest permute t' := by
      rw [← ht.root, ← ht'.root]
      exact hroot
    have htree : t = t' := Tree.Hashed.digest_inj hcf ht.hashed ht'.hashed hdigest
    refine List.ext_getElem? fun k => Option.ext fun v => ?_
    rw [← hmem, ← hmem', htree]
  · rintro rfl
    have htree : t = t' := ht.canonical.ext ht'.canonical fun k v =>
      (hmem k v).trans (hmem' k v).symm
    show tree.smt.root = tree'.smt.root
    rw [ht.root, ht'.root, htree]

end Root

/-! ## Two claims, renamed and reordered -/

namespace RootSample

def leaf0 : ℕ :=
  2709359244979210413698600789033710096385770393064541159566499027518547381688

def leaf1 : ℕ :=
  9851118252635379893693625583107430935824868926680220934794891618118232298042

def node0 : ℕ :=
  8310907546393140324843632259076182558765258295550579994467368865906372196848

def leaf2 : ℕ :=
  18292919862865551044106520598557784958866532981897881345824530350199364605140

def node1 : ℕ :=
  986653649004059991750600509939704013290179251569731077796381301211003568609

def node2 : ℕ :=
  18994817317219103570121712536571193750066744602869873176061508725706144198509

def leaf3 : ℕ :=
  20388414296007612699957093341831349875701901966155843874488494361916851691354

def node3 : ℕ :=
  18397513426009082417159115786376656169699430348481218764490388252380569547952

def node4 : ℕ :=
  19208801181095204518749587336856593977636633178099101161075891338201851291045

def leaf4 : ℕ :=
  17455424610718752531733468446600172887387582345610059189104744652104412383241

def leaf5 : ℕ :=
  7498214338380457120548259073797844692941605812140773498561149372974187363259

def node5 : ℕ :=
  4369837572811692022982113602468249603952935164910916018025922487862925844077

def node6 : ℕ :=
  9279950667707471313195625201555203664700265994155588155206747271222242117104

def node7 : ℕ :=
  6474604103496396810323538653004887397067228127225229083019271023088768120425

def node8 : ℕ :=
  16849939903530784339187272646799937667958730038012524370517243123761119217923

def node9 : ℕ :=
  18284306778076622040581199318291152923977373789324697449569783081349486314143

/-- Poseidon on the nodes of the trees below. -/
def table : List (List ℕ × ℕ) :=
  [([0, 21843, 1], leaf0), ([1, 17477, 1], leaf1), ([leaf0, leaf1], node0),
    ([2, 48, 1], leaf2), ([leaf0, leaf2], node1), ([node1, leaf1], node2),
    ([3, 48, 1], leaf3), ([leaf1, leaf3], node3), ([node1, node3], node4),
    ([0, 17477, 1], leaf4), ([1, 21843, 1], leaf5), ([leaf4, leaf5], node5),
    ([leaf4, leaf2], node6), ([node6, leaf5], node7), ([leaf5, leaf3], node8),
    ([node6, node8], node9)]

def poseidon (inputs : List ℕ) : ℕ := (table.lookup inputs).getD 0

/-- No credential below has a date. -/
def unixTs (_ : String) : String := "0"

/-- A credential of two claims, the first with the value `US`. -/
def credential (name name' value value' : String) : W3CCredential where
  issuer := .text ""
  validUntil := none
  validFrom := none
  issuanceDate := none
  type := ["VerifiableCredential", "AlbusCredential"]
  credentialSubject := .cons name (.scalar value) (.cons name' (.scalar value') .nil)

def resident : W3CCredential := credential "country" "citizenship" "US" "DE"

/-- The same values, the names exchanged. -/
def renamed : W3CCredential := credential "citizenship" "country" "US" "DE"

/-- The same claims, in the other order. -/
def reordered : W3CCredential := credential "citizenship" "country" "DE" "US"

def tree (credential : W3CCredential) : ClaimsTree :=
  match createCredentialTree poseidon unixTs credential none with
  | .ok tree => tree
  | .error _ => ClaimsTree.new none

/-- What the table computes: each tree is built once for all of it. -/
theorem computed :
    (∀ c ∈ [resident, renamed, reordered],
        (createCredentialTree poseidon unixTs c none).isOk = true) ∧
      (∀ c ∈ [renamed, reordered],
        CollisionFree poseidon (credentialHashed poseidon unixTs resident none ++
          credentialHashed poseidon unixTs c none)) ∧
      (tree resident).root = (tree renamed).root ∧
      (tree resident).root ≠ (tree reordered).root := by
  decide +kernel

theorem tree_ok : ∀ c ∈ [resident, renamed, reordered],
    createCredentialTree poseidon unixTs c none = .ok (tree c) := by
  intro c hc
  obtain ⟨hok, -⟩ := computed
  rw [tree]
  cases h : createCredentialTree poseidon unixTs c none with
  | ok tree => rfl
  | error e => exact absurd (hok c hc) (by rw [h]; nofun)

theorem collisionFree : ∀ c ∈ [renamed, reordered],
    CollisionFree poseidon (credentialHashed poseidon unixTs resident none ++
      credentialHashed poseidon unixTs c none) :=
  computed.2.1

end RootSample

section Sample

open RootSample

/-- The names of `resident` are exchanged: the values, and the root, are the same. -/
theorem credential_root_sample :
    (tree resident).root = (tree renamed).root ↔
      resident.values poseidon unixTs = renamed.values poseidon unixTs :=
  credential_root_iff (collisionFree _ List.mem_cons_self) (tree_ok _ (by simp))
    (tree_ok _ (by simp))

/-- **THE ROOT IS NO FUNCTION OF THE NAMED CLAIMS, NOR THEY OF IT.**  Two credentials
    whose claims have the same values under other names have one root, and two
    whose named claims are the same, in another order, have different roots. -/
theorem credential_root_fails :
    (createCredentialTree poseidon unixTs resident none = .ok (tree resident) ∧
      createCredentialTree poseidon unixTs renamed none = .ok (tree renamed) ∧
      createCredentialTree poseidon unixTs reordered none = .ok (tree reordered)) ∧
    (∀ c ∈ [renamed, reordered], CollisionFree poseidon
      (credentialHashed poseidon unixTs resident none ++
        credentialHashed poseidon unixTs c none)) ∧
    (∃ claims claims', resident.claims unixTs = .ok claims ∧
      renamed.claims unixTs = .ok claims' ∧ ¬ claims.Perm claims' ∧
      (tree resident).root = (tree renamed).root) ∧
    ∃ claims claims', resident.claims unixTs = .ok claims ∧
      reordered.claims unixTs = .ok claims' ∧ claims.Perm claims' ∧
      (tree resident).root ≠ (tree reordered).root := by
  obtain ⟨-, -, hsame, hother⟩ := computed
  refine ⟨⟨tree_ok _ (by simp), tree_ok _ (by simp), tree_ok _ (by simp)⟩,
    collisionFree, ?_, ?_⟩
  · refine ⟨[("country", "US"), ("citizenship", "DE"), ("meta.validUntil", "0"),
      ("meta.validFrom", "0")], [("citizenship", "US"), ("country", "DE"),
      ("meta.validUntil", "0"), ("meta.validFrom", "0")], ?_, ?_, ?_, hsame⟩
    · rfl
    · rfl
    · decide
  · refine ⟨[("country", "US"), ("citizenship", "DE"), ("meta.validUntil", "0"),
      ("meta.validFrom", "0")], [("citizenship", "DE"), ("country", "US"),
      ("meta.validUntil", "0"), ("meta.validFrom", "0")], ?_, ?_, List.Perm.swap _ _ _,
      hother⟩
    · rfl
    · rfl

end Sample

end Albus.Core
