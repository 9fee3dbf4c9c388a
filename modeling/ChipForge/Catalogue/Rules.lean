import ChipForge.Catalogue.Basic

/-! How the ports of a module follow its type. -/
namespace ChipForge.Catalogue

def rulesNote : String := "在此定义模块端口数据类型的修改规则。'same' 表示跟随节点主数据类型，数字表示固定类型。"

def rules : List Rule := [
  ⟨"2304","Add",[.same,.same],[.same]⟩,
  ⟨"2305","Subtract",[.same,.same],[.same]⟩,
  ⟨"2306","Multiply",[.same,.same],[.same]⟩,
  ⟨"2307","Divide",[.same,.same],[.same]⟩,
  ⟨"2310","Ceiling",[.same],[.same]⟩,
  ⟨"2311","Clamp",[.fixed 2,.fixed 2,.fixed 2],[.fixed 2]⟩,
  ⟨"2312","Clamp01",[.fixed 2],[.fixed 2]⟩,
  ⟨"2315","Negate",[.same],[.same]⟩,
  ⟨"2318","Sign",[.fixed 2],[.fixed 2]⟩,
  ⟨"2319","Floor",[.same],[.same]⟩,
  ⟨"2320","Inverse",[.fixed 2],[.fixed 2]⟩,
  ⟨"2322","Sqrt",[.fixed 2],[.fixed 2]⟩,
  ⟨"2323","Logarithm",[.fixed 2,.fixed 2],[.fixed 2]⟩,
  ⟨"2324","Positive",[.fixed 2],[.fixed 2]⟩,
  ⟨"2325","Power",[.fixed 2,.fixed 2],[.fixed 2]⟩,
  ⟨"2326","Round",[.same],[.same]⟩,
  ⟨"2327","Remainder",[.fixed 2,.fixed 2],[.fixed 2]⟩,
  ⟨"2330","Max",[.fixed 2,.fixed 2],[.fixed 2]⟩,
  ⟨"2308","Exponent",[.fixed 2],[.fixed 2]⟩,
  ⟨"2309","Average",[.fixed 2,.fixed 2],[.fixed 2]⟩,
  ⟨"261","Random",[.fixed 2,.fixed 2],[.fixed 2]⟩,
  ⟨"2567","Branch",[.fixed 2,.same,.same],[.same,.same]⟩,
  ⟨"1","Identity (Passthrough)",[.same],[.same]⟩,
  ⟨"2328","Interpolate",[.same,.same,.fixed 2],[.same]⟩,
  ⟨"4101","PreviousFrameState",[.same],[.same]⟩,
  ⟨"3595","ToString",[.same],[.fixed 4]⟩,
  ⟨"257","Constant",[],[.same]⟩,
  ⟨"ArraysGet","ArraysGet",[.same,.fixed 2],[.any,.fixed 2]⟩,
  ⟨"ArraysAdd","ArraysAdd",[.same,.any,.fixed 2,.fixed 2],[.same,.fixed 2]⟩,
  ⟨"ArraysSet","ArraysSet",[.same,.fixed 2,.any,.fixed 2],[.same]⟩,
  ⟨"ArraysLength","ArraysLength",[.same],[.fixed 2]⟩,
  ⟨"ArraysRemoveAllByValue","ArraysRemoveAllByValue",[.same,.any,.fixed 2],[.same]⟩,
  ⟨"ArraysRemoveByIndex","ArraysRemoveByIndex",[.same,.fixed 2,.fixed 2],[.same]⟩,
  ⟨"ArraysFind","ArraysFind",[.same,.any,.fixed 2,.fixed 2],[.fixed 2]⟩,
  ⟨"ArraysClear","ArraysClear",[.same,.fixed 2],[.same]⟩]

end ChipForge.Catalogue
