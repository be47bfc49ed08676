import IreeRocket.Lib.Uses
import IreeRocket.Plugin.LayoutSite

/-!
# `rocket-assign-layout`: packed edges, reader counts and the layout word

The pass describes every Rocket dispatch, decides for each input binding whether it reads its
producer's cube in place, counts the readers of each dispatch's result and writes both into the
trailing push constant of the dispatches whose target declares one. The decision records are left out.
The count is a walk over the use graph (`walk`); what it should count are the uses that read the result
in the end, through reshapes and bitcasts (`readers`).
-/

namespace IreeRocket.Plugin

open Conv Layout PlanFfi

/-- An `OpOperand`: operand `number` of the operation `owner`. -/
structure Use where
  owner : Nat
  number : Nat
  value : Value
  deriving DecidableEq, Repr

/-- One Rocket dispatch, described. -/
structure Site where
  op : Nat
  dispatch : Dispatch
  config : Config
  kernel : String
  geometry : Geometry
  deriving DecidableEq, Repr

namespace Site

def constants (site : Site) : Nat := site.config.constantCount

def declaresLayout (site : Site) : Bool := site.config.boolFlag "runtime_layout"

/-- Whether the pass writes a word on the dispatch. -/
def writesWord (site : Site) : Bool := site.declaresLayout && 0 < site.constants

/-- The operand number of input `binding`. -/
def operandNumber (site : Site) (binding : Nat) : Nat :=
  site.dispatch.workload.length + (site.constants + binding)

end Site

namespace Module

def usesOf (owner : Nat) (op : Op) : List Use :=
  op.operands.zipIdx.map fun operand => { owner, number := operand.2, value := operand.1 }

def uses (m : Module) : List Use := m.ops.zipIdx.flatMap fun op => usesOf op.2 op.1

/-- The site of an operation, when it is a Rocket dispatch the pass lays out. -/
def site (m : Module) (op : Nat) : Option Site :=
  match m.ops[op]? with
  | some (.dispatch d) => do
    let target ← d.target
    let kernel ← target.config.stringAttr "kernel"
    if d.results ≠ 1 ∨ d.arguments.length < target.config.constantCount then none
    else
      let dim := m.dimension target.config d.arguments
      some { op, dispatch := d, config := target.config, kernel
             geometry := (describe kernel target.config dim).getD { inputs := [], output := none } }
  | _ => none

def sites (m : Module) : List Site := (List.range m.ops.length).filterMap m.site

/-- Whether a producer's cube is what the consumer's binding would be packed to. -/
def identical (producer : Site) (input : Cube) : Bool :=
  match producer.geometry.output with
  | some output => (chainIdentityChecked output.desc input.desc).isOk
  | none => false

/-- Whether the edge into an input binding is packed. -/
def packed (m : Module) (site : Site) (binding : Nat) : Bool :=
  match site.geometry.inputs[binding]?.join, site.dispatch.arguments[site.constants + binding]? with
  | some input, some argument =>
    !site.dispatch.isOperandTied (site.operandNumber binding) &&
      match m.throughReshapes argument with
      | .result op 0 =>
        match m.site op with
        | some producer => identical producer input
        | none => false
      | _ => false
  | _, _ => false

/-- `1u << binding`. -/
def bit (binding : Nat) : Nat := (1 <<< binding) % 2 ^ 32

def packedInputs (m : Module) (site : Site) : Nat :=
  (List.range site.geometry.inputs.length).foldl
    (fun bits binding => if m.packed site binding then bits ||| bit binding else bits) 0

/-- Whether a use is a Rocket dispatch that takes the cube. -/
def takesCube (m : Module) (use : Use) : Bool :=
  match m.site use.owner with
  | none => false
  | some consumer =>
    let first := consumer.dispatch.workload.length
    let last := first + consumer.dispatch.arguments.length
    let binding := use.number - first - consumer.constants
    !(decide (use.number < first) || decide (last ≤ use.number) ||
        consumer.dispatch.isOperandTied use.number ||
        decide (use.number - first < consumer.constants)) &&
      (m.packedInputs consumer &&& bit binding) != 0

/-- The recursive lambda of the reader counts; `none` once some use does not take the cube. The order
of a use list does not matter to it. A use chain is shorter than the module. -/
def walk (m : Module) : Nat → Value → Nat → Option Nat
  | 0, _, count => some count
  | fuel + 1, value, count =>
    (m.uses.filter fun use => use.value = value).foldlM
      (fun count use =>
        match m.ops[use.owner]? with
        | some (Op.metadata _ _) =>
          if use.number ≠ 0 then none else m.walk fuel (.result use.owner 0) count
        | _ => if m.takesCube use then some ((count + 1) % 2 ^ 32) else none)
      count

def packedReaders (m : Module) (site : Site) : Nat :=
  match site.geometry.output with
  | some _ => (m.walk (m.ops.length + 1) (.result site.op 0) 0).getD 0
  | none => 0

def readersShift : Nat := 16

def layoutWord (m : Module) (site : Site) : Nat :=
  (m.packedInputs site &&& 0xffff) ||| (min (m.packedReaders site) 0xffff <<< readersShift)

/-- The word of one dispatch, or the failure on a push constant that is not an i32. -/
def writeWord (m : Module) (site : Site) : Option (Nat × Nat) :=
  if (site.dispatch.arguments[site.constants - 1]?).any m.isI32 then some (site.op, m.layoutWord site)
  else none

/-- `RocketAssignLayoutPass::runOnOperation`: the words written, by dispatch, unless the pass fails. -/
def assignLayout (m : Module) : Option (List (Nat × Nat)) :=
  (m.sites.filter Site.writesWord).mapM m.writeWord

/-! ### Truthful words -/

/-- The uses that read the first result of `op` in the end: those that are no relay and whose value
follows back to it. -/
def isRelay (m : Module) (use : Use) : Bool :=
  use.number == 0 && (m.relayed (.result use.owner 0)).isSome

def readers (m : Module) (op : Nat) : List Use :=
  m.uses.filter fun use => !m.isRelay use && m.throughReshapes use.value = .result op 0

/-- The edge into `binding`, followed back, comes from the first result of a Rocket dispatch that
publishes a cube identical to the binding's. -/
structure Edge (m : Module) (consumer : Site) (binding : Nat) (producer : Site) (output input : Cube) :
    Prop where
  reads : consumer.geometry.inputs[binding]? = some (some input)
  source : ∃ argument, consumer.dispatch.arguments[consumer.constants + binding]? = some argument ∧
    m.throughReshapes argument = .result producer.op 0
  untied : consumer.dispatch.isOperandTied (consumer.operandNumber binding) = false
  laidOut : m.site producer.op = some producer
  publishes : producer.geometry.output = some output
  identity : chainIdentityChecked output.desc input.desc = .ok ()

/-- Input bit `b` of a word on `consumer` is set for a packed edge only. -/
def InputsTruthful (m : Module) (consumer : Site) (word : Nat) : Prop :=
  ∀ b, (DispatchLayout.fromWord word).inputPacked b = true →
    ∃ producer output input, m.Edge consumer b producer output input

/-- A reader count other than zero on `producer` is the number of uses of its result, each an operand
of a dispatch whose own word sets the operand's bit. -/
def ReadersTruthful (m : Module) (words : List (Nat × Nat)) (producer : Site) (word : Nat) : Prop :=
  let k := (DispatchLayout.fromWord word).packedReaders
  0 < k → (m.readers producer.op).length = k ∧ ∀ use ∈ m.readers producer.op,
    ∃ consumer b word', m.site use.owner = some consumer ∧ use.number = consumer.operandNumber b ∧
      (use.owner, word') ∈ words ∧ (DispatchLayout.fromWord word').inputPacked b = true

/-- Every word written is truthful. -/
def Truthful (m : Module) (words : List (Nat × Nat)) : Prop :=
  ∀ site word, m.site site.op = some site → (site.op, word) ∈ words →
    m.InputsTruthful site word ∧ m.ReadersTruthful words site word

/-- A use is the operand of a packed edge. -/
def ReadsCube (m : Module) (use : Use) : Prop :=
  ∃ consumer b, m.site use.owner = some consumer ∧ use.number = consumer.operandNumber b ∧
    m.packed consumer b = true

/-- Where every use of a result reads its cube, every reader has a word of its own, and the count fits
its field: there are fewer than `2 ^ 16` uses, or the counter comes back to zero. -/
def CountsHeld (m : Module) : Prop :=
  ∀ site, m.site site.op = some site → site.writesWord = true →
    site.geometry.output.isSome = true → (∀ use ∈ m.readers site.op, m.ReadsCube use) →
    (m.readers site.op).length % 2 ^ 32 ≠ 0 →
      (m.readers site.op).length < 2 ^ 16 ∧
        ∀ use ∈ m.readers site.op, ∃ consumer, m.site use.owner = some consumer ∧
          consumer.writesWord = true

/-! ### Sites -/

variable {m : Module}

theorem site_dispatch {o : Nat} {site : Site} (h : m.site o = some site) :
    site.op = o ∧ m.ops[o]? = some (.dispatch site.dispatch) := by
  unfold Module.site at h
  split at h
  · rename_i d hop
    simp only [Option.bind_eq_bind, Option.bind_eq_some_iff] at h
    obtain ⟨target, -, kernel, -, h⟩ := h
    split_ifs at h
    obtain rfl := Option.some.inj h
    exact ⟨rfl, hop⟩
  · cases h

/-! ### Uses -/

theorem mem_uses {use : Use} :
    use ∈ m.uses ↔ ∃ op, m.ops[use.owner]? = some op ∧ op.operands[use.number]? = some use.value := by
  simp only [uses, usesOf, List.mem_flatMap, List.mem_map, Prod.exists,
    List.mem_zipIdx_iff_getElem?]
  constructor
  · rintro ⟨op, owner, hop, value, number, hvalue, rfl⟩
    exact ⟨op, hop, hvalue⟩
  · rintro ⟨op, hop, hvalue⟩
    exact ⟨op, use.owner, hop, use.value, use.number, hvalue, rfl⟩

theorem nodup_uses : m.uses.Nodup := by
  have hplaces : ∀ {α : Type} (l : List α) (k : Nat), (l.zipIdx k).Nodup := by
    intro α l k
    exact List.Nodup.of_map Prod.snd (by rw [List.zipIdx_map_snd]; exact List.nodup_range' _)
  rw [uses, List.nodup_flatMap]
  refine ⟨fun op _ => ?_, (hplaces _ _).imp_of_mem fun {a b} ha hb hne => ?_⟩
  · refine (hplaces _ _).map fun a b hab => ?_
    obtain ⟨-, hnumber, hvalue⟩ := Use.mk.inj hab
    exact Prod.ext hvalue hnumber
  · intro use hmema hmemb
    simp only [usesOf, List.mem_map] at hmema hmemb
    obtain ⟨x, -, rfl⟩ := hmema
    obtain ⟨y, -, huse⟩ := hmemb
    obtain ⟨howner, -, -⟩ := Use.mk.inj huse
    rw [List.mem_zipIdx_iff_getElem?] at ha hb
    rw [howner, ha] at hb
    exact hne (Prod.ext (Option.some.inj hb) howner.symm)

theorem relayed_some {value source : Value} (h : m.relayed value = some source) :
    ∃ o dims, value = .result o 0 ∧ m.ops[o]? = some (.metadata source dims) := by
  unfold relayed at h
  split at h
  · rename_i o
    split at h
    · rename_i source' dims hop
      obtain rfl := Option.some.inj h
      exact ⟨o, dims, rfl, hop⟩
    · cases h
  · cases h

/-- The place of a value in the order of the module. -/
def rank : Value → Nat
  | .argument _ => 0
  | .result op _ => op + 1

theorem rank_relayed {value source : Value} (h : m.relayed value = some source) :
    rank source < rank value ∧ rank value ≤ m.ops.length := by
  obtain ⟨o, dims, rfl, hop⟩ := relayed_some h
  refine ⟨?_, (List.getElem?_eq_some_iff.mp hop).1⟩
  cases source with
  | argument n => exact Nat.succ_pos o
  | result p n => exact Nat.succ_lt_succ (m.dominance o _ dims hop p n rfl)

theorem throughReshapesFrom_eq {fuel : Nat} {value : Value} (h : rank value ≤ fuel) (extra : Nat) :
    m.throughReshapesFrom (fuel + extra) value = m.throughReshapesFrom fuel value := by
  induction fuel generalizing value with
  | zero =>
    cases extra with
    | zero => rfl
    | succ extra =>
      rw [Nat.zero_add, throughReshapesFrom, throughReshapesFrom]
      cases hrelay : m.relayed value with
      | none => rfl
      | some source => exact absurd (rank_relayed hrelay).1 (by omega)
  | succ fuel ih =>
    rw [Nat.add_right_comm, throughReshapesFrom, throughReshapesFrom]
    cases hrelay : m.relayed value with
    | none => rfl
    | some source =>
      have hlt := (rank_relayed hrelay).1
      exact ih (by omega)

theorem throughReshapes_relayed {value source : Value} (h : m.relayed value = some source) :
    m.throughReshapes value = m.throughReshapes source := by
  obtain ⟨hlt, hle⟩ := rank_relayed h
  obtain ⟨extra, hextra⟩ := Nat.exists_eq_add_of_le hle
  have hpos : rank value = rank value - 1 + 1 := by omega
  calc m.throughReshapes value
      = m.throughReshapesFrom (rank value + extra) value := by rw [throughReshapes, hextra]
    _ = m.throughReshapesFrom (rank value) value := throughReshapesFrom_eq (Nat.le_refl _) extra
    _ = m.throughReshapesFrom (rank value - 1) source := by
        rw [hpos, throughReshapesFrom, h, Nat.add_sub_cancel]
    _ = m.throughReshapesFrom (rank value - 1 + (extra + 1)) source :=
        (throughReshapesFrom_eq (by omega) _).symm
    _ = m.throughReshapes source := by
        rw [throughReshapes, show rank value - 1 + (extra + 1) = m.ops.length by omega]

theorem throughReshapes_made {value : Value} (h : m.relayed value = none) :
    m.throughReshapes value = value := by
  rw [throughReshapes]
  cases m.ops.length with
  | zero => rfl
  | succ fuel => rw [throughReshapesFrom, h]

theorem isRelay_iff {use : Use} :
    m.isRelay use = true ↔ use.number = 0 ∧ ∃ source dims, m.ops[use.owner]? = some (.metadata source dims) := by
  unfold isRelay
  rw [Bool.and_eq_true, beq_iff_eq, Option.isSome_iff_exists]
  refine and_congr_right fun _ => ⟨?_, ?_⟩
  · rintro ⟨source, hsource⟩
    obtain ⟨o, dims, heq, hop⟩ := relayed_some hsource
    obtain ⟨rfl, -⟩ := Value.result.inj heq
    exact ⟨source, dims, hop⟩
  · rintro ⟨source, dims, hop⟩
    exact ⟨source, by simp [relayed, hop]⟩

/-- A relay relays the value it uses. -/
theorem relayed_of_isRelay {use : Use} (huse : use ∈ m.uses) (h : m.isRelay use = true) :
    m.relayed (.result use.owner 0) = some use.value := by
  obtain ⟨hnumber, source, dims, hop⟩ := isRelay_iff.mp h
  obtain ⟨op, hop', hvalue⟩ := mem_uses.mp huse
  obtain rfl := Option.some.inj (hop.symm.trans hop')
  rw [hnumber] at hvalue
  obtain rfl : source = use.value := Option.some.inj hvalue
  simp [relayed, hop]

/-- An operand place is used once. -/
theorem use_eq {use use' : Use} (huse : use ∈ m.uses) (huse' : use' ∈ m.uses)
    (howner : use.owner = use'.owner) (hnumber : use.number = use'.number) : use = use' := by
  obtain ⟨op, hop, hvalue⟩ := mem_uses.mp huse
  obtain ⟨op', hop', hvalue'⟩ := mem_uses.mp huse'
  rw [howner] at hop
  obtain rfl := Option.some.inj (hop.symm.trans hop')
  rw [hnumber] at hvalue
  cases use
  cases use'
  simp_all

def relay (m : Module) (use : Use) : Option Value :=
  if m.isRelay use then some (.result use.owner 0) else none

theorem relay_some {use : Use} {value : Value} :
    m.relay use = some value ↔ m.isRelay use = true ∧ value = .result use.owner 0 := by
  unfold relay
  split_ifs with h <;> simp [h, eq_comm]

theorem relay_none {use : Use} : m.relay use = none ↔ m.isRelay use = false := by
  unfold relay
  split_ifs with h <;> simp [h]

/-- The module's use graph. -/
def relays (m : Module) : Uses.Relays Use Value where
  uses := m.uses
  nodup := nodup_uses
  value := Use.value
  relay := m.relay
  rank := rank
  limit := m.ops.length
  rank_lt := by
    intro use w huse hrelay
    obtain ⟨h, rfl⟩ := relay_some.mp hrelay
    exact (rank_relayed (relayed_of_isRelay huse h)).1
  rank_le := by
    intro use w huse hrelay
    obtain ⟨h, rfl⟩ := relay_some.mp hrelay
    exact (rank_relayed (relayed_of_isRelay huse h)).2
  relay_inj := by
    intro use use' w huse huse' hrelay hrelay'
    obtain ⟨h, rfl⟩ := relay_some.mp hrelay
    obtain ⟨h', heq⟩ := relay_some.mp hrelay'
    apply use_eq huse huse' (Value.result.inj heq).1
    rw [(isRelay_iff.mp h).1, (isRelay_iff.mp h').1]

/-- An operation that relays reads the value it relays. -/
theorem exists_relay {value source : Value} (h : m.relayed value = some source) :
    ∃ use ∈ m.uses, m.relay use = some value := by
  obtain ⟨o, dims, rfl, hop⟩ := relayed_some h
  refine ⟨⟨o, 0, source⟩, mem_uses.mpr ⟨_, hop, rfl⟩, ?_⟩
  exact relay_some.mpr ⟨isRelay_iff.mpr ⟨rfl, source, dims, hop⟩, rfl⟩

theorem throughReshapes_origin (m : Module) : m.relays.Origin m.throughReshapes where
  relayed := by
    intro use w huse hrelay
    obtain ⟨h, rfl⟩ := relay_some.mp hrelay
    exact throughReshapes_relayed (relayed_of_isRelay huse h)
  made := by
    intro w h
    cases hrelayed : m.relayed w with
    | none => exact throughReshapes_made hrelayed
    | some source =>
      obtain ⟨use, huse, hrelay⟩ := exists_relay hrelayed
      exact absurd hrelay (h use huse)

/-! ### The walk -/

/-- One leaf of the walk. -/
def countUse (m : Module) (count : Nat) (use : Use) : Option Nat :=
  if m.takesCube use then some ((count + 1) % 2 ^ 32) else none

theorem takesCube_site {use : Use} (h : m.takesCube use = true) : (m.site use.owner).isSome = true := by
  unfold takesCube at h
  cases hsite : m.site use.owner with
  | none => simp [hsite] at h
  | some consumer => rfl

/-- A use of a reshape other than its tensor fails the count, as does any use that is no relay and takes
no cube. -/
theorem walk_use (fuel : Nat) (use : Use) (n : Nat) :
    (match m.ops[use.owner]? with
      | some (Op.metadata _ _) =>
        if use.number ≠ 0 then none else m.walk fuel (.result use.owner 0) n
      | _ => if m.takesCube use then some ((n + 1) % 2 ^ 32) else none) =
      match m.relay use with
      | some value => m.walk fuel value n
      | none => m.countUse n use := by
  cases hrelay : m.relay use with
  | some value =>
    obtain ⟨h, rfl⟩ := relay_some.mp hrelay
    obtain ⟨hnumber, source, dims, hop⟩ := isRelay_iff.mp h
    simp [hop, hnumber]
  | none =>
    have hnone := relay_none.mp hrelay
    unfold countUse
    split
    · rename_i source dims hop
      have hnumber : use.number ≠ 0 := by
        intro h0
        rw [isRelay_iff.mpr ⟨h0, source, dims, hop⟩] at hnone
        cases hnone
      have htakes : m.takesCube use = false := by
        apply Bool.eq_false_iff.mpr
        intro htakes
        have hsite := takesCube_site htakes
        simp [site, hop] at hsite
      simp [hnumber, htakes]
    · rfl

/-- The walk counts its leaves one after the other. -/
theorem walk_eq (fuel : Nat) (value : Value) (n : Nat) :
    m.walk fuel value n = (m.relays.leaves fuel value).foldlM m.countUse n := by
  induction fuel generalizing value n with
  | zero => rfl
  | succ fuel ih =>
    rw [walk, Uses.Relays.leaves]
    change _ = List.foldlM m.countUse n
      (List.flatMap _ (m.uses.filter fun use => use.value = value))
    generalize (m.uses.filter fun use => use.value = value) = uses
    induction uses generalizing n with
    | nil => rfl
    | cons use rest ihrest =>
      rw [List.foldlM_cons, List.flatMap_cons, List.foldlM_append, walk_use]
      have hsame : m.relays.relay use = m.relay use := rfl
      rw [hsame]
      cases hrelay : m.relay use with
      | some w =>
        show m.walk fuel w n >>= _ = _
        rw [ih]
        exact congrArg _ (funext fun n => ihrest n)
      | none =>
        simp only [List.foldlM_cons, List.foldlM_nil, bind_pure]
        exact congrArg _ (funext fun n => ihrest n)

theorem foldlM_countUse (uses : List Use) {n : Nat} (hn : n < 2 ^ 32) :
    uses.foldlM m.countUse n =
      if ∀ use ∈ uses, m.takesCube use = true then some ((n + uses.length) % 2 ^ 32) else none := by
  induction uses generalizing n with
  | nil =>
    rw [if_pos (fun use h => nomatch h), List.length_nil, Nat.add_zero, Nat.mod_eq_of_lt hn]
    rfl
  | cons use rest ih =>
    rw [List.foldlM_cons, countUse]
    by_cases htakes : m.takesCube use = true
    · rw [if_pos htakes, Option.bind_eq_bind, Option.bind_some, ih (Nat.mod_lt _ (by decide))]
      simp only [List.forall_mem_cons, htakes, true_and, List.length_cons, Nat.mod_add_mod]
      rw [Nat.add_right_comm, Nat.add_assoc]
    · rw [if_neg htakes, if_neg fun hall => htakes (hall use List.mem_cons_self)]
      rfl

/-- The walk is the number of readers, at the width of its counter, when all of them take the cube. -/
theorem packedReaders_eq {site : Site} (hsite : m.site site.op = some site)
    (houtput : site.geometry.output.isSome = true) :
    m.packedReaders site =
      if ∀ use ∈ m.readers site.op, m.takesCube use = true then
        (m.readers site.op).length % 2 ^ 32 else 0 := by
  obtain ⟨output, houtput⟩ := Option.isSome_iff_exists.mp houtput
  have hop := (site_dispatch hsite).2
  have hlt : site.op < m.ops.length := (List.getElem?_eq_some_iff.mp hop).1
  have hmade : ∀ use ∈ m.relays.uses, m.relays.relay use ≠ some (.result site.op 0) := by
    intro use _ hrelay
    obtain ⟨h, heq⟩ := relay_some.mp hrelay
    obtain ⟨-, source, dims, hmetadata⟩ := isRelay_iff.mp h
    rw [← (Value.result.inj heq).1, hop] at hmetadata
    cases hmetadata
  have hrank : m.relays.rank (.result site.op 0) ≤ m.relays.limit := hlt
  have hperm : (m.relays.leaves (m.ops.length + 1) (.result site.op 0)).Perm (m.readers site.op) := by
    have h := (throughReshapes_origin m).leaves_perm hmade hrank 
      (Nat.lt_add_right _ (Nat.lt_succ_self _))
    refine h.trans (List.Perm.of_eq ?_)
    apply List.filter_congr
    intro use _
    apply congrArg (· && decide (m.throughReshapes use.value = .result site.op 0))
    show (m.relay use).isNone = !m.isRelay use
    cases hrelay : m.isRelay use <;> simp [relay, hrelay]
  unfold packedReaders
  simp only [houtput, walk_eq]
  rw [foldlM_countUse _ (by decide)]
  simp only [hperm.mem_iff, hperm.length_eq, Nat.zero_add]
  split_ifs <;> rfl

/-! ### The input bits -/

theorem testBit_bit {b i : Nat} : (bit b).testBit i = true ↔ i = b ∧ b < 32 := by
  unfold bit
  rw [Nat.one_shiftLeft, Nat.testBit_mod_two_pow, Nat.testBit_two_pow, Bool.and_eq_true,
    decide_eq_true_eq, decide_eq_true_eq]
  omega

/-- A bit is set in a fold of bits when it was set before or some step sets it. -/
theorem testBit_foldl (accepts : Nat → Bool) (bindings : List Nat) (bits i : Nat) :
    (bindings.foldl (fun bits b => if accepts b then bits ||| bit b else bits) bits).testBit i = true ↔
      bits.testBit i = true ∨ i ∈ bindings ∧ accepts i = true ∧ i < 32 := by
  induction bindings generalizing bits with
  | nil => simp
  | cons b rest ih =>
    rw [List.foldl_cons, ih, List.mem_cons]
    by_cases haccepts : accepts b = true
    · rw [if_pos haccepts, Nat.testBit_or, Bool.or_eq_true, testBit_bit]
      constructor
      · rintro ((hbits | ⟨rfl, hlt⟩) | ⟨hmem, h⟩)
        · exact .inl hbits
        · exact .inr ⟨.inl rfl, haccepts, hlt⟩
        · exact .inr ⟨.inr hmem, h⟩
      · rintro (hbits | ⟨rfl | hmem, h⟩)
        · exact .inl (.inl hbits)
        · exact .inl (.inr ⟨rfl, h.2⟩)
        · exact .inr ⟨hmem, h⟩
    · rw [if_neg haccepts]
      refine or_congr_right ⟨fun ⟨hmem, h⟩ => ⟨.inr hmem, h⟩, ?_⟩
      rintro ⟨rfl | hmem, h⟩
      · exact absurd h.1 haccepts
      · exact ⟨hmem, h⟩

theorem describe_inputs {kernel : String} {config : Config} {dim : String → Option Int}
    {geometry : Geometry} (h : describe kernel config dim = some geometry) :
    geometry.inputs.length ≤ 4 := by
  unfold describe at h
  split_ifs at h
  · simp only [describeConv, Option.bind_eq_bind, Option.bind_eq_some_iff] at h
    obtain ⟨precision, -, dims, -, h⟩ := h
    split at h
    · obtain rfl := Option.some.inj h
      exact Nat.zero_le _
    · obtain rfl := Option.some.inj h
      unfold convGeometry
      dsimp only
      split_ifs <;> simp
  · simp only [describeMatmul, Option.bind_eq_bind, Option.bind_eq_some_iff] at h
    obtain ⟨precision, -, m, -, k, -, n, -, h⟩ := h
    obtain rfl := Option.some.inj h
    simp
  · simp only [describePooling, Option.bind_eq_bind, Option.bind_eq_some_iff] at h
    obtain ⟨_, -, _, -, _, -, _, -, _, -, _, -, _, -, _, -, _, -, _, -, h⟩ := h
    obtain rfl := Option.some.inj h
    simp
  · simp only [describeElementwise, Option.bind_eq_bind, Option.bind_eq_some_iff] at h
    obtain ⟨_, -, _, -, _, -, h⟩ := h
    obtain rfl := Option.some.inj h
    simp

theorem site_geometry {o : Nat} {site : Site} (h : m.site o = some site) :
    site.geometry = (describe site.kernel site.config
      (m.dimension site.config site.dispatch.arguments)).getD { inputs := [], output := none } := by
  unfold Module.site at h
  split at h
  · simp only [Option.bind_eq_bind, Option.bind_eq_some_iff] at h
    obtain ⟨target, -, kernel, -, h⟩ := h
    split_ifs at h
    obtain rfl := Option.some.inj h
    rfl
  · cases h

theorem site_inputs {o : Nat} {site : Site} (h : m.site o = some site) :
    site.geometry.inputs.length ≤ 4 := by
  rw [site_geometry h]
  cases hdescribe : describe site.kernel site.config
      (m.dimension site.config site.dispatch.arguments) with
  | none => exact Nat.zero_le 4
  | some geometry => exact describe_inputs hdescribe

theorem identical_iff {producer : Site} {input : Cube} :
    identical producer input = true ↔ ∃ output, producer.geometry.output = some output ∧
      chainIdentityChecked output.desc input.desc = .ok () := by
  unfold identical
  cases houtput : producer.geometry.output with
  | none => simp
  | some output =>
    cases hchain : chainIdentityChecked output.desc input.desc with
    | ok u => simp [hchain, Except.isOk, Except.toBool]
    | error refusal => simp [hchain, Except.isOk, Except.toBool]

theorem packed_iff {site : Site} {b : Nat} :
    m.packed site b = true ↔ ∃ producer output input, m.Edge site b producer output input := by
  constructor
  · intro h
    unfold packed at h
    split at h
    · rename_i input argument hinput hargument
      rw [Bool.and_eq_true, Bool.not_eq_true'] at h
      obtain ⟨huntied, h⟩ := h
      split at h
      · rename_i op hsource
        split at h
        · rename_i producer hproducer
          obtain ⟨output, houtput, hidentity⟩ := identical_iff.mp h
          have hop := (site_dispatch hproducer).1
          refine ⟨producer, output, input, Option.join_eq_some_iff.mp hinput, ⟨argument, hargument, ?_⟩,
            huntied, hop.symm ▸ hproducer, houtput, hidentity⟩
          rw [hop, hsource]
        · cases h
      · cases h
    · cases h
  · rintro ⟨producer, output, input, hreads, ⟨argument, hargument, hsource⟩, huntied, hproducer,
      houtput, hidentity⟩
    simp [packed, hreads, hargument, huntied, hsource, hproducer,
      identical_iff.mpr ⟨output, houtput, hidentity⟩]

theorem packed_lt {site : Site} {b : Nat} (hsite : m.site site.op = some site)
    (h : m.packed site b = true) : b < site.geometry.inputs.length ∧ b < 4 := by
  obtain ⟨producer, output, input, hedge⟩ := packed_iff.mp h
  have hlt := (List.getElem?_eq_some_iff.mp hedge.reads).1
  exact ⟨hlt, Nat.lt_of_lt_of_le hlt (site_inputs hsite)⟩

theorem testBit_packedInputs {site : Site} {b : Nat} (hsite : m.site site.op = some site) :
    (m.packedInputs site).testBit b = true ↔ m.packed site b = true := by
  unfold packedInputs
  rw [testBit_foldl, Nat.zero_testBit, List.mem_range]
  constructor
  · rintro (h | ⟨-, h, -⟩)
    · cases h
    · exact h
  · intro h
    obtain ⟨hlength, hlt⟩ := packed_lt hsite h
    exact .inr ⟨hlength, h, by omega⟩

theorem and_bit_ne_zero {bits b : Nat} : (bits &&& bit b != 0) = true ↔ bits.testBit b = true ∧ b < 32 := by
  rw [bne_iff_ne]
  constructor
  · intro h
    obtain ⟨i, hi⟩ := Nat.exists_testBit_of_ne_zero h
    rw [Nat.testBit_and, Bool.and_eq_true, testBit_bit] at hi
    obtain ⟨hbits, rfl, hlt⟩ := hi
    exact ⟨hbits, hlt⟩
  · rintro ⟨hbits, hlt⟩ hzero
    have h : (bits &&& bit b).testBit b = true := by
      rw [Nat.testBit_and, hbits, testBit_bit.mpr ⟨rfl, hlt⟩]
      rfl
    rw [hzero, Nat.zero_testBit] at h
    cases h

theorem takesCube_iff {use : Use} : m.takesCube use = true ↔ m.ReadsCube use := by
  unfold takesCube ReadsCube
  cases hsite : m.site use.owner with
  | none => simp
  | some consumer =>
    have hop := (site_dispatch hsite).1
    have hbits := testBit_packedInputs (b := use.number - consumer.dispatch.workload.length -
      consumer.constants) (hop.symm ▸ hsite)
    simp only [Bool.and_eq_true, and_bit_ne_zero, hbits, Bool.not_eq_true', Bool.or_eq_false_iff,
      decide_eq_false_iff_not, Option.some.injEq]
    constructor
    · rintro ⟨⟨⟨⟨hfirst, hlast⟩, huntied⟩, hconstants⟩, hpacked, hlt⟩
      refine ⟨consumer, _, rfl, ?_, hpacked⟩
      unfold Site.operandNumber
      omega
    · rintro ⟨_, b, rfl, hnumber, hpacked⟩
      obtain ⟨producer, output, input, hedge⟩ := packed_iff.mp hpacked
      obtain ⟨argument, hargument, -⟩ := hedge.source
      have hargs := (List.getElem?_eq_some_iff.mp hargument).1
      have hb := (packed_lt (hop.symm ▸ hsite) hpacked).2
      have hbinding : use.number - consumer.dispatch.workload.length - consumer.constants = b := by
        unfold Site.operandNumber at hnumber
        omega
      have huntied := hedge.untied
      rw [← hnumber] at huntied
      rw [hbinding]
      unfold Site.operandNumber at hnumber
      exact ⟨⟨⟨⟨by omega, by omega⟩, huntied⟩, by omega⟩, hpacked, by omega⟩

/-! ### The words -/

theorem mem_sites {site : Site} : site ∈ m.sites ↔ m.site site.op = some site := by
  simp only [sites, List.mem_filterMap, List.mem_range]
  constructor
  · rintro ⟨o, -, h⟩
    exact (site_dispatch h).1.symm ▸ h
  · intro h
    exact ⟨site.op, (List.getElem?_eq_some_iff.mp (site_dispatch h).2).1, h⟩

theorem mem_assignLayout {words : List (Nat × Nat)} (h : m.assignLayout = some words) {o word : Nat} :
    (o, word) ∈ words ↔
      ∃ site, m.site o = some site ∧ site.writesWord = true ∧ word = m.layoutWord site := by
  have hpass : ∀ site ∈ m.sites.filter Site.writesWord, ∀ entry, m.writeWord site = some entry →
      entry = (site.op, m.layoutWord site) := by
    intro site _ entry hentry
    unfold writeWord at hentry
    split_ifs at hentry
    exact (Option.some.inj hentry).symm
  have hwords := mapM_some_iff.mp h
  rw [← List.mem_map_of_injective (Option.some_injective _), ← hwords, List.mem_map]
  constructor
  · rintro ⟨site, hmem, hentry⟩
    obtain ⟨rfl, rfl⟩ := Prod.mk.inj (hpass site hmem _ hentry)
    obtain ⟨hsite, hwrites⟩ := List.mem_filter.mp hmem
    exact ⟨site, mem_sites.mp hsite, hwrites, rfl⟩
  · rintro ⟨site, hsite, hwrites, rfl⟩
    obtain ⟨rfl, -⟩ := site_dispatch hsite
    have hmem := List.mem_filter.mpr ⟨mem_sites.mpr hsite, hwrites⟩
    have hentry := List.mem_map_of_mem (f := m.writeWord) hmem
    rw [hwords] at hentry
    obtain ⟨entry, -, hentry⟩ := List.mem_map.mp hentry
    exact ⟨site, hmem, hpass site hmem entry hentry.symm ▸ hentry.symm⟩

theorem fromWord_layoutWord (m : Module) (site : Site) :
    DispatchLayout.fromWord (m.layoutWord site) =
      { packedInputs := m.packedInputs site &&& 0xffff
        packedReaders := min (m.packedReaders site) 0xffff } :=
  @fromWord_toWord ⟨m.packedInputs site &&& 0xffff, min (m.packedReaders site) 0xffff⟩
    (Nat.lt_of_le_of_lt Nat.and_le_right (by decide))
    (Nat.lt_of_le_of_lt (Nat.min_le_right _ _) (by decide))

theorem inputPacked_layoutWord {site : Site} {b : Nat} (hsite : m.site site.op = some site) :
    (DispatchLayout.fromWord (m.layoutWord site)).inputPacked b = true ↔ m.packed site b = true := by
  rw [fromWord_layoutWord, DispatchLayout.inputPacked, Bool.and_eq_true, decide_eq_true_eq,
    Nat.testBit_and, Bool.and_eq_true, testBit_packedInputs hsite]
  constructor
  · rintro ⟨-, h, -⟩
    exact h
  · intro h
    have hlt := (packed_lt hsite h).2
    refine ⟨by omega, h, ?_⟩
    rw [show (0xffff : Nat) = 2 ^ 16 - 1 from rfl, Nat.testBit_two_pow_sub_one, decide_eq_true_eq]
    omega

theorem inputsTruthful {site : Site} (hsite : m.site site.op = some site) :
    m.InputsTruthful site (m.layoutWord site) :=
  fun _ hbit => packed_iff.mp ((inputPacked_layoutWord hsite).mp hbit)

/-- A count other than zero: the site publishes a cube, and every reader takes it. -/
theorem packedReaders_pos {site : Site} (hsite : m.site site.op = some site)
    (hpos : 0 < m.packedReaders site) : site.geometry.output.isSome = true ∧
      (∀ use ∈ m.readers site.op, m.ReadsCube use) ∧
      m.packedReaders site = (m.readers site.op).length % 2 ^ 32 := by
  have houtput : site.geometry.output.isSome = true := by
    cases houtput : site.geometry.output with
    | none => simp [packedReaders, houtput] at hpos
    | some output => rfl
  rw [packedReaders_eq hsite houtput] at hpos ⊢
  split_ifs at hpos ⊢ with hall
  · exact ⟨houtput, fun use huse => takesCube_iff.mp (hall use huse), rfl⟩
  · exact absurd hpos (Nat.lt_irrefl 0)

/-- **When the words are truthful.** The input bits always are. The reader counts are exactly where,
for each result every use of which reads its cube, the readers have words of their own and the count
fits its field. -/
theorem layoutWords_truthful_iff {words : List (Nat × Nat)} (h : m.assignLayout = some words) :
    m.Truthful words ↔ m.CountsHeld := by
  constructor
  · intro htruthful site hsite hwrites houtput hreads hlength
    have hword := (mem_assignLayout h).mpr ⟨site, hsite, hwrites, rfl⟩
    have hreaders := (htruthful site _ hsite hword).2
    have hcount := packedReaders_eq hsite houtput
    rw [if_pos fun use huse => takesCube_iff.mpr (hreads use huse)] at hcount
    unfold ReadersTruthful at hreaders
    simp only [fromWord_layoutWord, hcount] at hreaders
    obtain ⟨hexact, hconsumers⟩ := hreaders (by omega)
    refine ⟨by omega, fun use huse => ?_⟩
    obtain ⟨consumer, b, word', hconsumer, -, hword', -⟩ := hconsumers use huse
    obtain ⟨consumer', hconsumer', hwrites', -⟩ := (mem_assignLayout h).mp hword'
    exact ⟨consumer', hconsumer', hwrites'⟩
  · intro hheld site word hsite hword
    obtain ⟨site', hsite', hwrites, rfl⟩ := (mem_assignLayout h).mp hword
    obtain rfl := Option.some.inj (hsite.symm.trans hsite')
    refine ⟨inputsTruthful hsite, ?_⟩
    unfold ReadersTruthful
    simp only [fromWord_layoutWord]
    intro hpos
    obtain ⟨houtput, hreads, hcount⟩ := packedReaders_pos hsite (by omega)
    obtain ⟨hlength, hconsumers⟩ := hheld site hsite hwrites houtput hreads (by omega)
    refine ⟨by omega, fun use huse => ?_⟩
    obtain ⟨consumer, b, hconsumer, hnumber, hpacked⟩ := hreads use huse
    obtain ⟨consumer', hconsumer', hwrites'⟩ := hconsumers use huse
    obtain rfl := Option.some.inj (hconsumer.symm.trans hconsumer')
    have hop := (site_dispatch hconsumer).1
    exact ⟨consumer, b, _, hconsumer, hnumber,
      (mem_assignLayout h).mpr ⟨consumer, hconsumer, hwrites', rfl⟩,
      (inputPacked_layoutWord (hop.symm ▸ hconsumer)).mpr hpacked⟩

/-! ### Two element-wise dispatches, one after the other -/

/-- A residual add over sixteen channels, with or without a layout word. -/
def addTarget (layout : Bool) : Target where
  executable := "add"
  config := [("kernel", .string "elementwise_binary"), ("width", .integer 4), ("height", .integer 4),
    ("channels", .integer 16), ("runtime_layout", .bool layout)]

/-- The first dispatch adds two arguments, the second its result and an argument. The words of the
first, and of the second where it has one, are push constants. -/
def twoAdds (layout : Bool) : Module where
  ops := [
    .dispatch { target := some (addTarget true), workload := []
                arguments := [.argument 0, .argument 1, .argument 2], others := [], tied := []
                results := 1 },
    .dispatch { target := some (addTarget layout), workload := []
                arguments := (if layout then [.argument 0] else []) ++ [.result 0 0, .argument 1]
                others := [], tied := [], results := 1 }]
  isI32 value := value = .argument 0
  dominance := by
    intro o source dims hop
    rcases o with _ | _ | o <;> simp at hop

theorem twoAdds_words : (twoAdds true).assignLayout = some [(0, 0x10000), (1, 1)] := by
  decide

/-- With a word on each, the first carries one reader and the second reads its first input packed. -/
theorem twoAdds_truthful : (twoAdds true).Truthful [(0, 0x10000), (1, 1)] := by
  apply (layoutWords_truthful_iff twoAdds_words).mpr
  have hreaders : ∀ site ∈ (twoAdds true).sites, ((twoAdds true).readers site.op).length < 2 ^ 16 ∧
      ∀ use ∈ (twoAdds true).readers site.op,
        ((twoAdds true).site use.owner).any Site.writesWord = true := by decide
  intro site hsite _ _ _ _
  obtain ⟨hlength, hwrites⟩ := hreaders site (mem_sites.mpr hsite)
  refine ⟨hlength, fun use huse => ?_⟩
  obtain ⟨consumer, hconsumer, hword⟩ := (Option.any_eq_true _ _).mp (hwrites use huse)
  exact ⟨consumer, hconsumer, hword⟩

/-- **A reader without a word is counted.** Where the second target declares no layout word, the first
dispatch still carries one reader. -/
theorem undeclared_reader_counted :
    (twoAdds false).assignLayout = some [(0, 0x10000)] ∧ ¬ (twoAdds false).Truthful [(0, 0x10000)] := by
  refine ⟨by decide, fun htruthful => ?_⟩
  have hsite : ((twoAdds false).site 0).isSome = true := by decide
  obtain ⟨site, hsite⟩ := Option.isSome_iff_exists.mp hsite
  obtain ⟨hop, -⟩ := site_dispatch hsite
  obtain ⟨-, hreaders⟩ := htruthful site 0x10000 (hop.symm ▸ hsite) (hop ▸ List.mem_singleton.mpr rfl)
  unfold ReadersTruthful at hreaders
  rw [hop] at hreaders
  obtain ⟨-, hwords⟩ := hreaders (by decide)
  obtain ⟨_, _, _, -, -, hword, -⟩ := hwords ⟨1, 0, .result 0 0⟩ (by decide)
  exact absurd hword (by simp)

end Module

end IreeRocket.Plugin
