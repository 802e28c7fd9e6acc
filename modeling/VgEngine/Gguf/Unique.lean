import VgEngine.Gguf.Layout

/-! The format is unambiguous: no index is a proper prefix of another one, so a file
is laid out as at most one index. -/
namespace VgEngine.Gguf
open Bytes

theorem leBytes_append_inj {width m n : Nat} {r s : List UInt8} (hm : m < 256 ^ width)
    (hn : n < 256 ^ width) (h : leBytes width m ++ r = leBytes width n ++ s) : m = n ∧ r = s := by
  have hparts := List.append_inj h (by rw [length_leBytes, length_leBytes])
  have hnum := congrArg leNat hparts.1
  rw [leNat_leBytes _ _ hm, leNat_leBytes _ _ hn] at hnum
  exact ⟨hnum, hparts.2⟩

theorem encodeString_inj {a b r s : List UInt8} (ha : a.length ≤ 2 ^ 20) (hb : b.length ≤ 2 ^ 20)
    (h : encodeString a ++ r = encodeString b ++ s) : a = b ∧ r = s := by
  simp only [encodeString, List.append_assoc] at h
  have hlen := leBytes_append_inj (by omega) (by omega) h
  exact List.append_inj hlen.2 hlen.1

theorem IntType.code_inj {t u : IntType} (h : t.code = u.code) : t = u := by
  cases t <;> cases u <;> first | rfl | (simp [IntType.code] at h)

/-- The words of integers are told apart by the type, which the caller has read. -/
theorem IntType.encode_inj {t : IntType} {v w : Int} {r s : List UInt8} (hv : t.Fits v)
    (hw : t.Fits w) (h : leBytes t.width (t.word v) ++ r = leBytes t.width (t.word w) ++ s) :
    v = w ∧ r = s := by
  have hword (x : Int) : t.word x < 256 ^ t.width := by
    have hlt := t.word_lt x
    rwa [pow_mul] at hlt
  have hparts := leBytes_append_inj (hword v) (hword w) h
  rw [← t.value_word hv, ← t.value_word hw, hparts.1]
  exact ⟨rfl, hparts.2⟩

mutual
theorem MetaValue.encode_inj (v w : MetaValue) (r s : List UInt8) (hcode : v.typeCode = w.typeCode)
    (hv : v.Valid) (hw : w.Valid) (h : v.encode ++ r = w.encode ++ s) : v = w ∧ r = s := by
  cases v with
  | int t a =>
    cases w with
    | int u b =>
      obtain rfl := IntType.code_inj hcode
      have hparts := IntType.encode_inj hv hw h
      exact ⟨by rw [hparts.1], hparts.2⟩
    | _ => cases t <;> simp [MetaValue.typeCode, IntType.code] at hcode
  | float32 a =>
    cases w with
    | float32 b =>
      have hparts := leBytes_append_inj (show a < 256 ^ 4 from hv) (show b < 256 ^ 4 from hw) h
      exact ⟨by rw [hparts.1], hparts.2⟩
    | int u _ => cases u <;> simp [MetaValue.typeCode, IntType.code] at hcode
    | _ => simp [MetaValue.typeCode] at hcode
  | float64 a =>
    cases w with
    | float64 b =>
      have hparts := leBytes_append_inj (show a < 256 ^ 8 from hv) (show b < 256 ^ 8 from hw) h
      exact ⟨by rw [hparts.1], hparts.2⟩
    | int u _ => cases u <;> simp [MetaValue.typeCode, IntType.code] at hcode
    | _ => simp [MetaValue.typeCode] at hcode
  | bool a =>
    cases w with
    | bool b =>
      have hparts := List.cons.inj h
      exact ⟨by rw [hparts.1], hparts.2⟩
    | int u _ => cases u <;> simp [MetaValue.typeCode, IntType.code] at hcode
    | _ => simp [MetaValue.typeCode] at hcode
  | string a =>
    cases w with
    | string b =>
      have hparts := encodeString_inj hv hw h
      exact ⟨by rw [hparts.1], hparts.2⟩
    | int u _ => cases u <;> simp [MetaValue.typeCode, IntType.code] at hcode
    | _ => simp [MetaValue.typeCode] at hcode
  | array elem items =>
    cases w with
    | array elem' items' =>
      obtain ⟨helem, hlen, hitems⟩ := hv
      obtain ⟨helem', hlen', hitems'⟩ := hw
      simp only [MetaValue.encode, List.append_assoc] at h
      have hhead := leBytes_append_inj (by omega) (by omega) h
      have hcount := leBytes_append_inj (by omega) (by omega) hhead.2
      rw [← hhead.1] at hitems'
      have hparts := encodeItems_inj elem items items' r s hcount.1 hitems hitems' hcount.2
      exact ⟨by rw [hhead.1, hparts.1], hparts.2⟩
    | int u _ => cases u <;> simp [MetaValue.typeCode, IntType.code] at hcode
    | _ => simp [MetaValue.typeCode] at hcode
theorem encodeItems_inj (elem : Nat) (vs ws : List MetaValue) (r s : List UInt8)
    (hlen : vs.length = ws.length) (hv : ValidItems elem vs) (hw : ValidItems elem ws)
    (h : encodeItems vs ++ r = encodeItems ws ++ s) : vs = ws ∧ r = s := by
  cases vs with
  | nil =>
    cases ws with
    | nil => exact ⟨rfl, h⟩
    | cons w ws => simp at hlen
  | cons v vs =>
    cases ws with
    | nil => simp at hlen
    | cons w ws =>
      simp only [encodeItems, List.append_assoc] at h
      have hhead := MetaValue.encode_inj v w _ _ (hv.1.trans hw.1.symm) hv.2.1 hw.2.1 h
      have htail := encodeItems_inj elem vs ws r s (Nat.succ.inj hlen) hv.2.2 hw.2.2 hhead.2
      exact ⟨by rw [hhead.1, htail.1], htail.2⟩
end

/-- Lists of self-delimiting records of one length are read back record by record. -/
theorem flatMap_append_inj {α : Type} {encode : α → List UInt8} {P : α → Prop}
    (hinj : ∀ a b r s, P a → P b → encode a ++ r = encode b ++ s → a = b ∧ r = s) :
    ∀ (as bs : List α) (r s : List UInt8), (∀ a ∈ as, P a) → (∀ b ∈ bs, P b) →
      as.length = bs.length → as.flatMap encode ++ r = bs.flatMap encode ++ s → as = bs ∧ r = s
  | [], [], _, _, _, _, _, h => ⟨rfl, h⟩
  | [], _ :: _, _, _, _, _, hlen, _ => by simp at hlen
  | _ :: _, [], _, _, _, _, hlen, _ => by simp at hlen
  | a :: as, b :: bs, r, s, ha, hb, hlen, h => by
    rw [List.flatMap_cons, List.flatMap_cons, List.append_assoc, List.append_assoc] at h
    have hhead := hinj a b _ _ (ha a List.mem_cons_self) (hb b List.mem_cons_self) h
    have htail := flatMap_append_inj hinj as bs r s
      (fun x hx => ha x (List.mem_cons_of_mem _ hx)) (fun x hx => hb x (List.mem_cons_of_mem _ hx))
      (Nat.succ.inj hlen) hhead.2
    exact ⟨by rw [hhead.1, htail.1], htail.2⟩

theorem MetaValue.typeCode_lt (v : MetaValue) : v.typeCode < 2 ^ 32 := by
  cases v with
  | int t _ => cases t <;> simp [MetaValue.typeCode, IntType.code]
  | _ => simp [MetaValue.typeCode]

theorem encodeMeta_inj (m n : List UInt8 × MetaValue) (r s : List UInt8)
    (hm : m.1.length ≤ 2 ^ 20 ∧ m.2.Valid) (hn : n.1.length ≤ 2 ^ 20 ∧ n.2.Valid)
    (h : encodeMeta m ++ r = encodeMeta n ++ s) : m = n ∧ r = s := by
  simp only [encodeMeta, List.append_assoc] at h
  have hkey := encodeString_inj hm.1 hn.1 h
  have hcode := leBytes_append_inj m.2.typeCode_lt n.2.typeCode_lt hkey.2
  have hvalue := MetaValue.encode_inj m.2 n.2 r s hcode.1 hm.2 hn.2 hcode.2
  exact ⟨Prod.ext hkey.1 hvalue.1, hvalue.2⟩

theorem TensorDecl.encode_inj (d e : TensorDecl) (r s : List UInt8) (hd : d.Valid) (he : e.Valid)
    (h : d.encode ++ r = e.encode ++ s) : d = e ∧ r = s := by
  have hrank := hd.rank
  have hrank' := he.rank
  simp only [TensorDecl.encode, List.append_assoc] at h
  have hname := encodeString_inj hd.name he.name h
  have hcount := leBytes_append_inj (by omega) (by omega) hname.2
  have hdims := flatMap_append_inj (P := fun n => 0 < n ∧ n < 2 ^ 64)
    (fun a b r s ha hb => leBytes_append_inj ha.2 hb.2) d.dims e.dims _ _ hd.dims he.dims
    hcount.1 hcount.2
  have htype := leBytes_append_inj hd.type he.type hdims.2
  have hoffset := leBytes_append_inj hd.offset he.offset htype.2
  cases d
  cases e
  exact ⟨by simp_all, hoffset.2⟩

/-- No index is a proper prefix of another one. -/
theorem IndexLayout.encode_inj {L M : IndexLayout} {r s : List UInt8} (hL : L.Valid) (hM : M.Valid)
    (h : L.encode ++ r = M.encode ++ s) : L = M ∧ r = s := by
  have hversion : L.version < 2 ^ 32 := by rcases hL.version with hv | hv <;> omega
  have hversion' : M.version < 2 ^ 32 := by rcases hM.version with hv | hv <;> omega
  have hcounts := And.intro hL.metaCount hL.tensorCount
  have hcounts' := And.intro hM.metaCount hM.tensorCount
  simp only [IndexLayout.encode, List.append_assoc] at h
  have h := (List.append_inj h rfl).2
  have hv := leBytes_append_inj hversion hversion' h
  have htc := leBytes_append_inj (by omega) (by omega) hv.2
  have hmc := leBytes_append_inj (by omega) (by omega) htc.2
  have hmetas := flatMap_append_inj encodeMeta_inj L.metas M.metas _ _ hL.metas hM.metas
    hmc.1 hmc.2
  have htensors := flatMap_append_inj TensorDecl.encode_inj L.tensors M.tensors r s hL.tensors
    hM.tensors htc.1 hmetas.2
  cases L
  cases M
  exact ⟨by simp_all, htensors.2⟩

end VgEngine.Gguf
