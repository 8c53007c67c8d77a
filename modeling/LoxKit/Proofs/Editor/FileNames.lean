import LoxKit.Editor.Server
import Mathlib.Data.List.Nodup

/-!
# Names of files

The name of a document on disk can be read back: its bytes are those of the written path
(`decodeBytes_encoded`), and the slashes of a written path are those between its names, as long as
no name holds one.  So different files have different names (`uriOfPath_inj`), and a scan of a
workspace meets each name once (`Server.nodup_uris`).
-/
namespace LoxKit

/-- No name holds the slash that stands between names.  No file system has other names. -/
def FilePath.WellNamed (p : FilePath) : Prop := ∀ name ∈ p, '/' ∉ name.toList

/-- All listed paths are made of such names. -/
def Files.WellNamed (fs : Files) : Prop := ∀ e ∈ fs.entries, e.1.WellNamed

/-! ## Written paths -/

theorem FilePath.toList_render (p : FilePath) :
    p.render.toList = p.flatMap fun name => '/' :: name.toList := by
  unfold render
  induction p with
  | nil => rfl
  | cons name p ih => simp [String.join_cons, ih]

/-- Behind a name without slashes another part of the path begins, or nothing is left. -/
theorem FilePath.render_cons_inj {name name' : String} {p q : FilePath}
    (hn : '/' ∉ name.toList) (hn' : '/' ∉ name'.toList)
    (h : name.toList ++ p.render.toList = name'.toList ++ q.render.toList) :
    name = name' ∧ p.render = q.render := by
  have hbehind (r : FilePath) : r.render.toList.takeWhile (· != '/') = [] := by
    rw [toList_render]
    cases r <;> rfl
  have hname {n : String} (r : FilePath) (hn : '/' ∉ n.toList) :
      (n.toList ++ r.render.toList).takeWhile (· != '/') = n.toList := by
    rw [List.takeWhile_append_of_pos (by
      intro c hc
      simpa using fun h : c = '/' => hn (h ▸ hc)), hbehind, List.append_nil]
  have heq : name.toList = name'.toList := by rw [← hname p hn, h, hname q hn']
  rw [heq, List.append_cancel_left_eq] at h
  exact ⟨String.toList_inj.mp heq, String.toList_inj.mp h⟩

/-- **A written path tells its names.** -/
theorem FilePath.render_inj {p q : FilePath} (hp : p.WellNamed) (hq : q.WellNamed)
    (h : p.render = q.render) : p = q := by
  have hlist : p.render.toList = q.render.toList := congrArg String.toList h
  rw [toList_render, toList_render] at hlist
  induction p generalizing q with
  | nil =>
    cases q with
    | nil => rfl
    | cons name q => simp at hlist
  | cons name p ih =>
    cases q with
    | nil => simp at hlist
    | cons name' q =>
      simp only [List.flatMap_cons, List.cons_append, List.cons.injEq, true_and,
        ← toList_render] at hlist
      obtain ⟨rfl, hrest⟩ := render_cons_inj (hp name List.mem_cons_self)
        (hq name' List.mem_cons_self) hlist
      have hbehind := ih (fun n hn => hp n (List.mem_cons_of_mem _ hn))
        (fun n hn => hq n (List.mem_cons_of_mem _ hn)) hrest
        (by rw [← toList_render, ← toList_render, hrest])
      rw [hbehind]

namespace Editor

/-! ## Bytes of a name -/

/-- Bytes taken from a place on. -/
theorem toList_loop (b : ByteArray) (i : Nat) (r : List UInt8) :
    ByteArray.toList.loop b i r = r.reverse ++ b.data.toList.drop i := by
  induction i, r using ByteArray.toList.loop.induct b with
  | case1 i r hlt ih =>
    have hsize : i < b.data.toList.length := by simpa using hlt
    have hget : b.get! i = b.data.toList[i] := by
      rw [ByteArray.get!, Array.getElem_toList]
      exact getElem!_pos b.data i hlt
    rw [ByteArray.toList.loop, if_pos hlt, ih, List.drop_eq_getElem_cons hsize, hget,
      List.reverse_cons, List.append_assoc, List.singleton_append]
  | case2 i r hge =>
    have hsize : b.data.toList.length ≤ i := by simpa using hge
    rw [ByteArray.toList.loop, if_neg hge, List.drop_eq_nil_of_le hsize, List.append_nil]

/-- Two texts with the same bytes are the same. -/
theorem bytes_inj {x y : String} (h : x.toUTF8.toList = y.toUTF8.toList) : x = y := by
  unfold ByteArray.toList at h
  rw [toList_loop, toList_loop] at h
  exact String.toByteArray_inj.mp (ByteArray.ext (Array.ext' h))

/-- An unreserved byte stands for itself. -/
theorem decodeBytes_unreserved (rest : List Char) {b : UInt8} (h : isUnreserved b = true) :
    decodeBytes (Char.ofNat b.toNat :: rest) = b :: decodeBytes rest := by
  have hall : ∀ n < 256, isUnreserved (.ofNat n) = true → Char.ofNat n ≠ '%' ∧
      (String.singleton (Char.ofNat n)).toUTF8.toList = [UInt8.ofNat n] := by decide +kernel
  obtain ⟨hne, hbytes⟩ := hall b.toNat b.toNat_lt (by simpa using h)
  rw [decodeBytes.eq_3 _ _ (fun a c _ hc => absurd hc hne), hbytes]
  simp

/-- Any other byte is told by its two digits. -/
theorem decodeBytes_reserved (rest : List Char) {b : UInt8} (h : isUnreserved b = false) :
    decodeBytes ('%' :: (Text.hex 2 b.toNat).map Char.toUpper ++ rest) = b :: decodeBytes rest := by
  have hall : ∀ n < 256, isUnreserved (.ofNat n) = false →
      ((Text.hex 2 n).map Char.toUpper).map hexValue? = [some (n / 16), some (n % 16)] := by
    decide +kernel
  have hdigits := hall b.toNat b.toNat_lt (by simpa using h)
  obtain ⟨x, _, hxy, hx, hrest⟩ := List.map_eq_cons_iff.mp hdigits
  obtain ⟨y, _, rfl, hy, hnil⟩ := List.map_eq_cons_iff.mp hrest
  have hvalue : 16 * (b.toNat / 16) + b.toNat % 16 = b.toNat := by omega
  simp [hxy, List.map_eq_nil_iff.mp hnil, decodeBytes, hx, hy, hvalue]

/-- **The bytes of a name can be read back.** -/
theorem decodeBytes_encoded (bytes : List UInt8) :
    decodeBytes (bytes.flatMap encodeByte) = bytes := by
  induction bytes with
  | nil => rfl
  | cons b bytes ih =>
    rw [List.flatMap_cons, encodeByte]
    cases h : isUnreserved b with
    | true => rw [if_pos rfl, List.singleton_append, decodeBytes_unreserved _ h, ih]
    | false => rw [if_neg nofun, decodeBytes_reserved _ h, ih]

/-- **Different files have different names.** -/
theorem uriOfPath_inj {p q : FilePath} (hp : p.WellNamed) (hq : q.WellNamed)
    (h : uriOfPath p = uriOfPath q) : p = q := by
  unfold uriOfPath at h
  have hencoded := String.ofList_injective ((String.append_right_inj _).mp h)
  have hbytes := congrArg decodeBytes hencoded
  rw [decodeBytes_encoded, decodeBytes_encoded] at hbytes
  exact FilePath.render_inj hp hq (bytes_inj hbytes)

/-! ## The files of a workspace -/

theorem nodup_eraseDups {α : Type} [BEq α] [LawfulBEq α] (l : List α) :
    l.eraseDups.Nodup := by
  cases l with
  | nil => exact List.nodup_nil
  | cons a l =>
    rw [List.eraseDups_cons, List.nodup_cons]
    exact ⟨by simp [List.mem_eraseDups], nodup_eraseDups _⟩
termination_by l.length
decreasing_by
  have := List.length_filter_le (fun b => !b == a) l
  simp only [List.length_cons]
  omega

variable {s : Server}

theorem Server.mem_paths {p : FilePath} (h : p ∈ s.programPaths) : p ∈ s.disk.paths := by
  unfold programPaths at h
  split at h
  · cases h
  · rw [List.mem_mergeSort] at h
    exact List.mem_of_mem_filter h

theorem Server.nodup_programPaths : s.programPaths.Nodup := by
  unfold programPaths
  split
  · exact List.nodup_nil
  · rw [(List.mergeSort_perm _ _).nodup_iff]
    exact List.Nodup.filter _ (nodup_eraseDups _)

/-- The files of a workspace are made of the names that are listed. -/
theorem Server.wellNamed (h : s.disk.WellNamed) {p : FilePath} (hp : p ∈ s.programPaths) :
    p.WellNamed := by
  have hpaths := mem_paths hp
  unfold Files.paths FilePath.heads at hpaths
  rw [List.mem_eraseDups, List.mem_flatMap] at hpaths
  obtain ⟨e, he, hp⟩ := hpaths
  obtain ⟨n, -, rfl⟩ := List.mem_map.mp hp
  exact fun name hname => h e he name (List.mem_of_mem_take hname)

/-- **A scan meets each name once.** -/
theorem Server.nodup_uris (h : s.disk.WellNamed) : (s.programPaths.map uriOfPath).Nodup :=
  nodup_programPaths.map_on fun _ hp _ hq => uriOfPath_inj (wellNamed h hp) (wellNamed h hq)

end Editor
end LoxKit
