import PickleGraph.Registry

/-!
# The catalogue of known types

The canonical name of every supported type with its strategy, and the other
names under which producers have written the same types: variants of one
class, renamed modules of later releases, bundled copies and older names of
built-in types.
-/

namespace PickleGraph.Catalog

/-! ## Shapes of entries -/

/-- A type in its module, with the strategy that reconstructs it. -/
structure Entry where
  module : String
  name : String
  strategy : Strategy

def callable
    (module name target : String) (function : Constructor) : Entry :=
  ⟨module, name, .callable target function⟩

/-- A compiled type that is filled by position. -/
def extensionAs
    (kind : RecordKind) (module name target : String)
    (argumentNames stateNames : List String) : Entry :=
  ⟨module, name, .extension target kind
    (argumentNames.map Text.ofString) (stateNames.map Text.ofString)⟩

def extension
    (module name target : String)
    (argumentNames stateNames : List String) : Entry :=
  extensionAs .plain module name target argumentNames stateNames

/-- Types that are known to users under another module. -/
def estimators
    (module publicModule : String) (names : List String) : List Entry :=
  names.map fun name =>
    ⟨module, name, .generic (publicModule ++ "." ++ name : String) .plain⟩

def typeValues (module : String) (names : List String) : List Entry :=
  estimators module module names

/-! ## Names of arguments and of parts of a state -/

def dtypeState : List String :=
  ["version", "byteorder", "subdescr", "names", "fields", "elsize",
    "alignment", "flags", "metadata"]

def arrayState : List String :=
  ["version", "shape", "dtype", "fortran_order", "data"]

def randomState : List String :=
  ["bit_generator", "key", "pos", "has_gauss", "cached_gaussian"]

def splitterArguments : List String :=
  ["criterion", "max_features", "min_samples_leaf", "min_weight_leaf",
    "random_state"]

def binaryTreeState : List String :=
  ["data", "idx_array", "node_data", "node_bounds", "leaf_size",
    "n_levels", "n_leaves", "n_splits", "n_trims", "n_calls",
    "dist_metric"]

/-! ## Canonical types -/

def builtins : List Entry :=
  [callable "builtins" "object" "builtins.object" .object,
    callable "builtins" "set" "builtins.set" .set,
    callable "builtins" "frozenset" "builtins.frozenset" .frozenset,
    callable "builtins" "list" "builtins.list" .list,
    callable "builtins" "tuple" "builtins.tuple" .tuple,
    callable "builtins" "dict" "builtins.dict" .dict,
    callable "builtins" "bytes" "builtins.bytes" .bytes,
    callable "builtins" "bytearray" "builtins.bytearray" .bytearray,
    callable "builtins" "complex" "builtins.complex" .complex,
    callable "copyreg" "_reconstructor" "copyreg._reconstructor"
      .reconstructor,
    callable "_codecs" "encode" "_codecs.encode" .encode,
    callable "collections" "OrderedDict" "collections.OrderedDict"
      .orderedDict]

def arrayContainers : List Entry :=
  [⟨"joblib.numpy_pickle", "NumpyArrayWrapper",
      .array "numpy.ndarray" .inline⟩,
    ⟨"joblib.numpy_pickle", "NDArrayWrapper",
      .array "numpy.ndarray" .sibling⟩]

def arrayTypes : List Entry :=
  [extensionAs .dtype "numpy" "dtype" "numpy.dtype"
      ["obj", "align", "copy"] dtypeState,
    extension "numpy.core" "_ufunc_reconstruct" "numpy.ufunc"
      ["module", "name"] [],
    extensionAs .ndarray "numpy.core.multiarray" "_reconstruct"
      "numpy.ndarray" ["subtype", "initial_shape", "initial_dtype"]
      arrayState,
    extensionAs .scalar "numpy.core.multiarray" "scalar" "numpy.generic"
      ["dtype", "data"] [],
    callable "numpy.core.numeric" "_frombuffer" "numpy.ndarray"
      .fromBuffer,
    extension "numpy.random" "__RandomState_ctor"
      "numpy.random.RandomState" [] randomState] ++
  typeValues "numpy"
    ["ndarray", "bool_", "object_", "str_", "bytes_", "int8", "int16",
      "int32", "int64", "uint8", "uint16", "uint32", "uint64", "float16",
      "float32", "float64", "complex64", "complex128"] ++
  estimators "scipy.sparse.csr" "scipy.sparse" ["csr_matrix"]

def learningTypes : List Entry :=
  [estimators "sklearn.cluster.k_means_" "sklearn.cluster"
      ["KMeans", "MiniBatchKMeans"],
    estimators "sklearn.decomposition.incremental_pca"
      "sklearn.decomposition" ["IncrementalPCA"],
    estimators "sklearn.decomposition.pca" "sklearn.decomposition"
      ["PCA"],
    estimators "sklearn.discriminant_analysis"
      "sklearn.discriminant_analysis" ["LinearDiscriminantAnalysis"],
    estimators "sklearn.ensemble.bagging" "sklearn.ensemble"
      ["BaggingClassifier", "BaggingRegressor"],
    estimators "sklearn.ensemble.forest" "sklearn.ensemble"
      ["ExtraTreesClassifier", "ExtraTreesRegressor",
        "RandomForestClassifier", "RandomForestRegressor"],
    estimators "sklearn.ensemble.gradient_boosting" "sklearn.ensemble"
      ["BinomialDeviance", "ExponentialLoss", "MultinomialDeviance",
        "GradientBoostingClassifier", "GradientBoostingRegressor",
        "LogOddsEstimator", "MeanEstimator",
        "PriorProbabilityEstimator", "QuantileEstimator",
        "ScaledLogOddsEstimator", "ZeroEstimator"],
    estimators "sklearn.ensemble.voting_classifier" "sklearn.ensemble"
      ["VotingClassifier"],
    estimators "sklearn.linear_model.base" "sklearn.linear_model"
      ["LinearRegression"],
    estimators "sklearn.linear_model.coordinate_descent"
      "sklearn.linear_model" ["ElasticNet", "Lasso"],
    estimators "sklearn.linear_model.logistic" "sklearn.linear_model"
      ["LogisticRegression"],
    estimators "sklearn.linear_model.ridge" "sklearn.linear_model"
      ["Ridge", "RidgeClassifier"],
    estimators "sklearn.linear_model.stochastic_gradient"
      "sklearn.linear_model" ["SGDClassifier", "SGDRegressor"],
    estimators "sklearn.naive_bayes" "sklearn.naive_bayes"
      ["GaussianNB"],
    estimators "sklearn.neighbors.classification" "sklearn.neighbors"
      ["KNeighborsClassifier"],
    estimators "sklearn.neighbors.regression" "sklearn.neighbors"
      ["KNeighborsRegressor"],
    estimators "sklearn.neural_network.multilayer_perceptron"
      "sklearn.neural_network" ["MLPClassifier", "MLPRegressor"],
    estimators "sklearn.pipeline" "sklearn.pipeline"
      ["Pipeline", "FeatureUnion"],
    estimators "sklearn.preprocessing._function_transformer"
      "sklearn.preprocessing" ["FunctionTransformer"],
    estimators "sklearn.preprocessing.data" "sklearn.preprocessing"
      ["Binarizer", "MaxAbsScaler", "MinMaxScaler", "OneHotEncoder",
        "RobustScaler", "StandardScaler"],
    estimators "sklearn.preprocessing.imputation"
      "sklearn.preprocessing" ["Imputer"],
    estimators "sklearn.preprocessing.label" "sklearn.preprocessing"
      ["LabelBinarizer", "LabelEncoder"],
    estimators "sklearn.svm.classes" "sklearn.svm"
      ["LinearSVR", "NuSVC", "NuSVR", "OneClassSVM", "SVC", "SVR"],
    estimators "sklearn.tree.tree" "sklearn.tree"
      ["DecisionTreeClassifier", "DecisionTreeRegressor",
        "ExtraTreeClassifier", "ExtraTreeRegressor"]].flatten

def compiledTypes : List Entry :=
  [extension "sklearn.linear_model.sgd_fast" "Hinge"
      "sklearn.linear_model.Hinge" ["threshold"] [],
    extension "sklearn.linear_model.sgd_fast" "Log"
      "sklearn.linear_model.Log" [] [],
    extension "sklearn.linear_model.sgd_fast" "ModifiedHuber"
      "sklearn.linear_model.ModifiedHuber" [] [],
    extension "sklearn.linear_model.sgd_fast" "SquaredHinge"
      "sklearn.linear_model.SquaredHinge" ["threshold"] [],
    extension "sklearn.linear_model.sgd_fast" "SquaredLoss"
      "sklearn.linear_model.SquaredLoss" [] [],
    extension "sklearn.linear_model.sgd_fast" "Huber"
      "sklearn.linear_model.Huber" ["c"] [],
    extension "sklearn.linear_model.sgd_fast" "EpsilonInsensitive"
      "sklearn.linear_model.EpsilonInsensitive" ["epsilon"] [],
    extension "sklearn.neighbors.dist_metrics" "newObj"
      "sklearn.neighbors.DistanceMetric" ["metric_class"]
      ["p", "vec", "mat"]] ++
  typeValues "sklearn.neighbors.dist_metrics"
    ["EuclideanDistance", "SEuclideanDistance", "ManhattanDistance",
      "ChebyshevDistance", "MinkowskiDistance", "WMinkowskiDistance",
      "MahalanobisDistance"] ++
  [extension "sklearn.neighbors.kd_tree" "newObj"
      "sklearn.neighbors.BinaryTree" ["tree_class"] binaryTreeState] ++
  typeValues "sklearn.neighbors.kd_tree" ["KDTree"] ++
  [extension "sklearn.tree._tree" "BestSplitter"
      "sklearn.tree.BestSplitter" splitterArguments [],
    extension "sklearn.tree._tree" "PresortBestSplitter"
      "sklearn.tree.PresortBestSplitter" splitterArguments [],
    extension "sklearn.tree._tree" "ClassificationCriterion"
      "sklearn.tree.ClassificationCriterion" ["n_outputs", "n_classes"]
      [],
    extension "sklearn.tree._tree" "RegressionCriterion"
      "sklearn.tree.RegressionCriterion" ["n_outputs", "n_samples"] [],
    extension "sklearn.tree._tree" "Tree" "sklearn.tree.Tree"
      ["n_features", "n_classes", "n_outputs"] []]

def wrapperTypes : List Entry :=
  [estimators "sklearn_pandas" "sklearn_pandas" ["DataFrameMapper"],
    estimators "sklearn_pandas.pipeline" "sklearn_pandas"
      ["TransformerPipeline"],
    estimators "sklearn2pmml.decoration" "sklearn2pmml.decoration"
      ["CategoricalDomain", "ContinuousDomain"],
    estimators "xgboost.core" "xgboost" ["Booster"],
    estimators "xgboost.sklearn" "xgboost"
      ["XGBClassifier", "XGBRegressor"]].flatten

def types : List Entry :=
  builtins ++ arrayContainers ++ arrayTypes ++ learningTypes ++
    compiledTypes ++ wrapperTypes

/-! ## Other names -/

/-- Another name in the same module, and the canonical one. -/
structure ClassAlias where
  module : String
  name : String
  canonical : String

def classAliases : List ClassAlias :=
  [⟨"sklearn.linear_model.coordinate_descent", "ElasticNetCV",
      "ElasticNet"⟩,
    ⟨"sklearn.linear_model.coordinate_descent", "LassoCV", "Lasso"⟩,
    ⟨"sklearn.linear_model.logistic", "LogisticRegressionCV",
      "LogisticRegression"⟩,
    ⟨"sklearn.linear_model.ridge", "RidgeCV", "Ridge"⟩,
    ⟨"sklearn.linear_model.ridge", "RidgeClassifierCV",
      "RidgeClassifier"⟩,
    ⟨"sklearn.tree._tree", "Gini", "ClassificationCriterion"⟩,
    ⟨"sklearn.tree._tree", "Entropy", "ClassificationCriterion"⟩,
    ⟨"sklearn.tree._tree", "MSE", "RegressionCriterion"⟩,
    ⟨"sklearn.tree._tree", "FriedmanMSE", "RegressionCriterion"⟩,
    ⟨"sklearn.neighbors.kd_tree", "BinaryTree", "KDTree"⟩]

/-- Another name of a module, for some of its types or for all of them. -/
structure ModuleAlias where
  module : String
  canonical : String
  names : Option (List String)

def renamed (module canonical : String) : ModuleAlias :=
  ⟨module, canonical, none⟩

def moduleAliases : List ModuleAlias :=
  [renamed "__builtin__" "builtins",
    renamed "copy_reg" "copyreg",
    renamed "sklearn.externals.joblib.numpy_pickle"
      "joblib.numpy_pickle",
    renamed "numpy._core" "numpy.core",
    renamed "numpy._core.multiarray" "numpy.core.multiarray",
    renamed "numpy._core.numeric" "numpy.core.numeric",
    renamed "numpy.random._pickle" "numpy.random",
    renamed "scipy.sparse._csr" "scipy.sparse.csr",
    renamed "sklearn.cluster._kmeans" "sklearn.cluster.k_means_",
    renamed "sklearn.decomposition._incremental_pca"
      "sklearn.decomposition.incremental_pca",
    renamed "sklearn.decomposition._pca" "sklearn.decomposition.pca",
    renamed "sklearn.ensemble._bagging" "sklearn.ensemble.bagging",
    renamed "sklearn.ensemble._forest" "sklearn.ensemble.forest",
    ⟨"sklearn.ensemble._gb", "sklearn.ensemble.gradient_boosting",
      some ["GradientBoostingClassifier",
        "GradientBoostingRegressor"]⟩,
    ⟨"sklearn.ensemble._gb_losses",
      "sklearn.ensemble.gradient_boosting",
      some ["BinomialDeviance", "ExponentialLoss",
        "MultinomialDeviance"]⟩,
    renamed "sklearn.ensemble._voting"
      "sklearn.ensemble.voting_classifier",
    renamed "sklearn.linear_model._base" "sklearn.linear_model.base",
    renamed "sklearn.linear_model._coordinate_descent"
      "sklearn.linear_model.coordinate_descent",
    renamed "sklearn.linear_model._logistic"
      "sklearn.linear_model.logistic",
    renamed "sklearn.linear_model._ridge" "sklearn.linear_model.ridge",
    renamed "sklearn.linear_model._stochastic_gradient"
      "sklearn.linear_model.stochastic_gradient",
    renamed "sklearn.linear_model._sgd_fast"
      "sklearn.linear_model.sgd_fast",
    renamed "sklearn.neighbors._classification"
      "sklearn.neighbors.classification",
    renamed "sklearn.neighbors._regression"
      "sklearn.neighbors.regression",
    renamed "sklearn.neighbors._dist_metrics"
      "sklearn.neighbors.dist_metrics",
    renamed "sklearn.neighbors._kd_tree" "sklearn.neighbors.kd_tree",
    renamed "sklearn.neural_network._multilayer_perceptron"
      "sklearn.neural_network.multilayer_perceptron",
    renamed "sklearn.preprocessing._data" "sklearn.preprocessing.data",
    renamed "sklearn.preprocessing._label"
      "sklearn.preprocessing.label",
    renamed "sklearn.svm._classes" "sklearn.svm.classes",
    renamed "sklearn.tree._classes" "sklearn.tree.tree",
    ⟨"sklearn.tree._criterion", "sklearn.tree._tree",
      some ["Gini", "Entropy", "MSE", "FriedmanMSE"]⟩,
    ⟨"sklearn.tree._splitter", "sklearn.tree._tree",
      some ["BestSplitter", "PresortBestSplitter"]⟩,
    ⟨"sklearn_pandas.dataframe_mapper", "sklearn_pandas",
      some ["DataFrameMapper"]⟩]

/-! ## The registry of the catalogue -/

def key (module name : String) : TypeKey := ⟨module, name⟩

def namesOfModule (module : String) : List String :=
  ((types.filter (·.module == module)).map (·.name)) ++
    ((classAliases.filter (·.module == module)).map (·.name))

def populate (builder : RegistryBuilder) :
    Except RegistryFault RegistryBuilder := do
  let registered ← types.foldlM
    (fun builder entry =>
      builder.register (key entry.module entry.name) entry.strategy)
    builder
  let aliased ← classAliases.foldlM
    (fun builder other =>
      builder.share (key other.module other.name)
        (key other.module other.canonical))
    registered
  moduleAliases.foldlM
    (fun builder other =>
      (other.names.getD (namesOfModule other.canonical)).foldlM
        (fun builder name =>
          builder.share (key other.module name)
            (key other.canonical name))
        builder)
    aliased

end PickleGraph.Catalog

namespace PickleGraph

/-- The registry of every type in the catalogue, whose entries agree. -/
def Registry.standard : Registry :=
  match Catalog.populate .empty with
  | .ok builder => builder.build
  | .error _ => .empty

end PickleGraph
